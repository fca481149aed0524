import LuaBytecode.Proofs.Outcome
import LuaBytecode.Proofs.Slice
import LuaBytecode.WordArray

/-! Arrays of words under any steps: whatever is asked of an array, and whether or not it succeeds,
the array goes on holding words only and never grows past its limit. -/
namespace LuaBytecode

namespace Word
open Outcome

theorem ofDatum_lt {datum : Datum} {word : Nat} (h : ofDatum datum = .ok word) : word < bound := by
  cases datum with
  | int value =>
    rw [ofDatum] at h
    split at h
    · rename_i hrange
      cases h
      omega
    · cases h
  | _ => cases h

private theorem ofData_lt {data : List Datum} {words : List Nat} (h : ofData data = .ok words) :
    ∀ w ∈ words, w < bound := by
  induction data generalizing words with
  | nil =>
    cases h
    simp
  | cons datum data ih =>
    obtain ⟨word, hword, h⟩ := bind_eq_ok_iff.mp h
    obtain ⟨rest, hrest, h⟩ := bind_eq_ok_iff.mp h
    cases h
    intro w hw
    rcases List.mem_cons.mp hw with rfl | hw
    · exact ofDatum_lt hword
    · exact ih hrest w hw

theorem ofIterable_lt {datum : Datum} {words : List Nat} (h : ofIterable datum = .ok words) :
    ∀ w ∈ words, w < bound := by
  rw [ofIterable] at h
  split at h
  · exact ofData_lt h
  · cases h

end Word

namespace WordArray
open Outcome

theorem eq_of_words_eq {a b : WordArray} (hwords : a.words = b.words) (hlimit : a.limit = b.limit) :
    a = b := by
  cases a
  cases b
  cases hwords
  cases hlimit
  rfl

/-- Every element is a word and the length keeps to the limit. -/
structure Valid (a : WordArray) : Prop where
  lt_bound : ∀ w ∈ a.words, w < Word.bound
  size_le : ∀ limit, a.limit = some limit → (a.size : Int) ≤ limit

/-- What any step may do to an array: the limit stays, only words are new, and the array does not
grow unless its limit allows the new length. -/
structure Advances (a a' : WordArray) : Prop where
  limit_eq : a'.limit = a.limit
  mem_or_lt : ∀ w ∈ a'.words, w ∈ a.words ∨ w < Word.bound
  size_le : a'.size ≤ a.size ∨ ∀ limit, a.limit = some limit → (a'.size : Int) ≤ limit

theorem Advances.refl (a : WordArray) : Advances a a where
  limit_eq := rfl
  mem_or_lt _ hw := .inl hw
  size_le := .inl (Nat.le_refl _)

theorem Advances.of_sublist {a : WordArray} {words : List Nat} (h : words.Sublist a.words) :
    Advances a { a with words } where
  limit_eq := rfl
  mem_or_lt _ hw := .inl (h.mem hw)
  size_le := .inl h.length_le

theorem Advances.valid {a a' : WordArray} (h : Advances a a') (ha : a.Valid) : a'.Valid where
  lt_bound w hw := (h.mem_or_lt w hw).elim (ha.lt_bound w) id
  size_le limit hlimit := by
    rw [h.limit_eq] at hlimit
    rcases h.size_le with hle | hle
    · have := ha.size_le limit hlimit
      omega
    · exact hle limit hlimit

theorem checkLength_eq_ok_iff {a : WordArray} {length : Nat} :
    a.checkLength length = .ok () ↔ ∀ limit, a.limit = some limit → (length : Int) ≤ limit := by
  rw [checkLength]
  cases a.limit with
  | none => simp
  | some limit =>
    by_cases hgt : (length : Int) > limit
    · simp [hgt]
    · simp [hgt, Int.not_lt.mp hgt]

theorem append_advances {a a' : WordArray} {words : List Nat}
    (hwords : ∀ w ∈ words, w ∈ a.words ∨ w < Word.bound) (h : a.append words = .ok a') :
    Advances a a' := by
  obtain ⟨_, hcheck, h⟩ := bind_eq_ok_iff.mp h
  cases h
  refine ⟨rfl, fun w hw => (List.mem_append.mp hw).elim .inl (hwords w), .inr ?_⟩
  simpa only [size, List.length_append] using checkLength_eq_ok_iff.mp hcheck

private theorem push_advances {a a' : WordArray} {value : Datum} (h : a.push value = .ok a') :
    Advances a a' := by
  obtain ⟨word, hword, h⟩ := bind_eq_ok_iff.mp h
  refine append_advances ?_ h
  intro w hw
  rw [List.mem_singleton.mp hw]
  exact .inr (Word.ofDatum_lt hword)

private theorem extend_advances {a a' : WordArray} {value : Datum} (h : a.extend value = .ok a') :
    Advances a a' := by
  obtain ⟨words, hwords, h⟩ := bind_eq_ok_iff.mp h
  exact append_advances (fun w hw => .inr (Word.ofIterable_lt hwords w hw)) h

private theorem set_advances {a a' : WordArray} {index : Int} {value : Datum}
    (h : a.set index value = .ok a') : Advances a a' := by
  obtain ⟨word, hword, h⟩ := bind_eq_ok_iff.mp h
  obtain ⟨i, _, h⟩ := bind_eq_ok_iff.mp h
  cases h
  refine ⟨rfl, ?_, .inl (Nat.le_of_eq (List.length_set ..))⟩
  intro w hw
  rcases List.mem_or_eq_of_mem_set hw with hw | rfl
  · exact .inl hw
  · exact .inr (Word.ofDatum_lt hword)

/-- A slice is replaced only by words, and only if their number suits the slice and the limit. -/
theorem setSlice_eq_ok {a a' : WordArray} {s : Slice} {value : Datum}
    (h : a.setSlice s value = .ok a') :
    ∃ words, Word.ofIterable value = .ok words ∧
      (s.isPlain = true ∨ words.length = s.count a.size) ∧
      a.checkLength (a.size - s.count a.size + words.length) = .ok () ∧
      a' = { a with words := if s.isPlain then s.splice a.words words
        else s.overwrite a.words words } := by
  obtain ⟨words, hwords, h⟩ := bind_eq_ok_iff.mp h
  obtain ⟨_, _, h⟩ := bind_eq_ok_iff.mp h
  dsimp only at h
  by_cases hsize : (!s.isPlain && words.length != s.count a.size) = true
  · rw [if_pos hsize] at h
    cases h
  · rw [if_neg hsize] at h
    obtain ⟨_, hcheck, h⟩ := bind_eq_ok_iff.mp h
    refine ⟨words, hwords, ?_, hcheck, (pure_eq_ok_iff.mp h).symm⟩
    by_cases hplain : s.isPlain = true
    · exact .inl hplain
    · exact .inr (by simpa [hplain] using hsize)

private theorem setSlice_advances {a a' : WordArray} {s : Slice} {value : Datum}
    (h : a.setSlice s value = .ok a') : Advances a a' := by
  obtain ⟨words, hwords, _, hcheck, rfl⟩ := setSlice_eq_ok h
  have hlt := Word.ofIterable_lt hwords
  by_cases hplain : s.isPlain
  · refine ⟨rfl, ?_, .inr ?_⟩
    · intro w hw
      rw [if_pos hplain] at hw
      exact (Slice.mem_splice hw).imp_right (hlt w)
    · simp only [size, if_pos hplain, Slice.length_splice hplain]
      exact checkLength_eq_ok_iff.mp hcheck
  · refine ⟨rfl, ?_, .inl ?_⟩
    · intro w hw
      rw [if_neg hplain] at hw
      exact (Slice.mem_overwrite hw).imp_right (hlt w)
    · simp [size, if_neg hplain]

theorem delete_advances {a a' : WordArray} {index : Int} (h : a.delete index = .ok a') :
    Advances a a' := by
  obtain ⟨i, _, h⟩ := bind_eq_ok_iff.mp h
  cases h
  exact .of_sublist (List.eraseIdx_sublist ..)

private theorem deleteSlice_advances {a a' : WordArray} {s : Slice} (h : a.deleteSlice s = .ok a') :
    Advances a a' := by
  obtain ⟨_, _, h⟩ := bind_eq_ok_iff.mp h
  cases h
  exact .of_sublist (s.drop_sublist a.words)

private theorem insert_advances {a a' : WordArray} {index : Int} {value : Datum}
    (h : a.insert index value = .ok a') : Advances a a' := by
  obtain ⟨word, hword, h⟩ := bind_eq_ok_iff.mp h
  obtain ⟨_, hcheck, h⟩ := bind_eq_ok_iff.mp h
  have hplace : Index.insertion a.size index ≤ a.words.length := Nat.min_le_left ..
  split at h
  · cases h
  cases h
  refine ⟨rfl, ?_, .inr ?_⟩
  · intro w hw
    rcases (List.mem_insertIdx hplace).mp hw with rfl | hw
    · exact .inr (Word.ofDatum_lt hword)
    · exact .inl hw
  · have hlen := List.length_insertIdx_of_le_length hplace word
    rw [size, hlen]
    exact checkLength_eq_ok_iff.mp hcheck

private theorem pop_advances {a a' : WordArray} {index : Int} {word : Nat}
    (h : a.pop index = .ok (word, a')) : Advances a a' := by
  obtain ⟨_, _, h⟩ := bind_eq_ok_iff.mp h
  obtain ⟨_, hdelete, h⟩ := bind_eq_ok_iff.mp h
  cases h
  exact delete_advances hdelete

private theorem remove_advances {a a' : WordArray} {value : Datum} (h : a.remove value = .ok a') :
    Advances a a' := by
  obtain ⟨i, _, h⟩ := bind_eq_ok_iff.mp h
  cases h
  exact .of_sublist (List.eraseIdx_sublist ..)

private theorem edit_eq_ok {a' : WordArray} {edit : Except Fault WordArray} {reply : Reply}
    (h : (do return (Reply.nothing, ← edit)) = Except.ok (reply, a')) : edit = .ok a' := by
  obtain ⟨_, hedit, h⟩ := bind_eq_ok_iff.mp h
  cases h
  exact hedit

private theorem look_advances {α : Type} {a a' : WordArray} {look : Except Fault α} {f : α → Reply}
    {reply : Reply} (h : (do return (f (← look), a)) = Except.ok (reply, a')) : Advances a a' := by
  obtain ⟨_, _, h⟩ := bind_eq_ok_iff.mp h
  cases h
  exact .refl a

/-- One case for each thing that can be asked. A step that only looks at the array leaves it. -/
theorem advance_advances {a a' : WordArray} {s : Step} {reply : Reply}
    (h : a.advance s = .ok (reply, a')) : Advances a a' := by
  cases s with
  | get key =>
    cases key with
    | index i => exact look_advances h
    | slice s => exact look_advances h
  | set key value =>
    cases key with
    | index i => exact set_advances (edit_eq_ok h)
    | slice s => exact setSlice_advances (edit_eq_ok h)
  | delete key =>
    cases key with
    | index i => exact delete_advances (edit_eq_ok h)
    | slice s => exact deleteSlice_advances (edit_eq_ok h)
  | insert i value => exact insert_advances (edit_eq_ok h)
  | append value => exact push_advances (edit_eq_ok h)
  | extend value => exact extend_advances (edit_eq_ok h)
  | extendSelf => exact append_advances (fun _ hw => .inl hw) (edit_eq_ok h)
  | pop i =>
    obtain ⟨_, hpop, h⟩ := bind_eq_ok_iff.mp h
    cases h
    exact pop_advances hpop
  | remove value => exact remove_advances (edit_eq_ok h)
  | reverse =>
    cases h
    exact ⟨rfl, fun _ hw => .inl (List.mem_reverse.mp hw), .inl (by simp [size])⟩
  | clear =>
    cases h
    exact .of_sublist (List.nil_sublist _)
  | find value start stop => exact look_advances h
  | equalsArray value => exact look_advances h
  | key => cases h
  | _ =>
    cases h
    exact .refl a

theorem step_advances (a : WordArray) (s : Step) : Advances a (a.step s).2 := by
  rw [step]
  split
  · rename_i h
    exact advance_advances h
  · exact .refl a

/-- The outcomes of steps in turn and the array after all of them. -/
def run (a : WordArray) : List Step → List (Except Fault Reply) × WordArray
  | [] => ([], a)
  | s :: steps =>
    let (outcome, a) := a.step s
    let (outcomes, a) := a.run steps
    (outcome :: outcomes, a)

/-- The invariant of every run: the array stays valid and keeps the limit it started with. -/
theorem Valid.run {a : WordArray} (ha : a.Valid) (steps : List Step) :
    (a.run steps).2.Valid ∧ (a.run steps).2.limit = a.limit := by
  induction steps generalizing a with
  | nil => exact ⟨ha, rfl⟩
  | cons s steps ih =>
    have hstep := step_advances a s
    have hrest := ih (hstep.valid ha)
    rw [hstep.limit_eq] at hrest
    exact hrest

end WordArray
end LuaBytecode
