import LuaBytecode.Index
import Mathlib.Tactic.Common

/-! Places in a list: the one that an index names, and for slices how many elements an edit leaves and
which elements they are. -/
namespace LuaBytecode

namespace Index
variable {α : Type}

/-- The place that an index names is the index itself, or counts from the end if that is negative. -/
theorem position?_eq_some_iff {n : Nat} {index : Int} {place : Nat} :
    position? n index = some place ↔
      place < n ∧ (place : Int) = if index < 0 then index + n else index := by
  rw [position?]
  split_ifs <;> simp only [Option.some.injEq, false_iff] <;> omega

theorem position?_eq_none_iff {n : Nat} {index : Int} :
    position? n index = none ↔ ¬ (-(n : Int) ≤ index ∧ index < n) := by
  rw [position?]
  split_ifs <;> simp <;> omega

theorem get?_eq_none_iff {xs : List α} {index : Int} :
    get? xs index = none ↔ ¬ (-(xs.length : Int) ≤ index ∧ index < xs.length) := by
  rw [← position?_eq_none_iff, get?]
  cases hposition : position? xs.length index with
  | none => simp
  | some place =>
    have hlt := (position?_eq_some_iff.mp hposition).1
    simp [hlt]

end Index

namespace Slice
variable {α : Type}

theorem stride_of_isPlain {s : Slice} (hs : s.isPlain) : s.stride = 1 := by
  simpa [isPlain] using hs

theorem stride_eq_zero_iff {s : Slice} : s.stride = 0 ↔ s.step = some 0 := by
  rw [stride]
  cases s.step <;> simp

/-- Where a bound of a slice lies among `n` positions: on one of them or, in the direction of the step,
just past them. -/
def InReach (n : Nat) (stride place : Int) : Prop :=
  if stride < 0 then -1 ≤ place ∧ place < n else 0 ≤ place ∧ place ≤ n

theorem inReach_clamp (n : Nat) (stride bound : Int) : InReach n stride (clamp n stride bound) := by
  simp only [InReach, clamp]
  split_ifs <;> omega

theorem inReach_first (s : Slice) (n : Nat) : InReach n s.stride (s.first n) := by
  rw [first]
  cases s.start with
  | some bound => exact inReach_clamp n s.stride bound
  | none =>
    simp only [InReach]
    split_ifs <;> omega

theorem inReach_last (s : Slice) (n : Nat) : InReach n s.stride (s.last n) := by
  rw [last]
  cases s.stop with
  | some bound => exact inReach_clamp n s.stride bound
  | none =>
    simp only [InReach]
    split_ifs <;> omega

theorem first_bounds {s : Slice} (hs : s.isPlain) (n : Nat) : 0 ≤ s.first n ∧ s.first n ≤ n := by
  have hfirst := inReach_first s n
  rwa [stride_of_isPlain hs] at hfirst

theorem last_bounds {s : Slice} (hs : s.isPlain) (n : Nat) : 0 ≤ s.last n ∧ s.last n ≤ n := by
  have hlast := inReach_last s n
  rwa [stride_of_isPlain hs] at hlast

/-- A slice selects no more positions than there are. -/
theorem count_le (s : Slice) (n : Nat) : s.count n ≤ n := by
  have hfirst := inReach_first s n
  have hlast := inReach_last s n
  rw [InReach] at hfirst hlast
  rw [count]
  split_ifs at hfirst hlast ⊢
  · have hdiv := Int.ediv_le_self (-s.stride) (show 0 ≤ s.first n - s.last n - 1 by omega)
    omega
  · omega
  · have hdiv := Int.ediv_le_self s.stride (show 0 ≤ s.last n - s.first n - 1 by omega)
    omega
  · omega

/-- A plain slice selects the run from its first position up to its last. -/
theorem count_of_isPlain {s : Slice} (hs : s.isPlain) (n : Nat) :
    s.count n = (s.last n).toNat - (s.first n).toNat := by
  have hfirst := first_bounds hs n
  have hlast := last_bounds hs n
  rw [count, stride_of_isPlain hs, if_neg (by decide), Int.ediv_one]
  split <;> omega

theorem length_splice {s : Slice} (hs : s.isPlain) (xs values : List α) :
    (s.splice xs values).length = xs.length - s.count xs.length + values.length := by
  have hfirst := first_bounds hs xs.length
  have hlast := last_bounds hs xs.length
  rw [count_of_isPlain hs]
  simp only [splice, List.length_append, List.length_take, List.length_drop]
  omega

theorem mem_splice {s : Slice} {xs values : List α} {x : α} (h : x ∈ s.splice xs values) :
    x ∈ xs ∨ x ∈ values := by
  simp only [splice, List.mem_append] at h
  rcases h with (h | h) | h
  · exact .inl (List.mem_of_mem_take h)
  · exact .inr h
  · exact .inl (List.mem_of_mem_drop h)

private theorem length_foldl_set (pairs : List (Nat × α)) (xs : List α) :
    (pairs.foldl (fun xs (i, x) => xs.set i x) xs).length = xs.length := by
  induction pairs generalizing xs with
  | nil => rfl
  | cons pair pairs ih => rw [List.foldl_cons, ih, List.length_set]

private theorem mem_foldl_set {pairs : List (Nat × α)} {xs : List α} {x : α}
    (h : x ∈ pairs.foldl (fun xs (i, x) => xs.set i x) xs) : x ∈ xs ∨ x ∈ pairs.map Prod.snd := by
  induction pairs generalizing xs with
  | nil => exact .inl h
  | cons pair pairs ih =>
    rw [List.map_cons, List.mem_cons]
    rcases ih h with h | h
    · rcases List.mem_or_eq_of_mem_set h with h | h
      · exact .inl h
      · exact .inr (.inl h)
    · exact .inr (.inr h)

@[simp] theorem length_overwrite (s : Slice) (xs values : List α) :
    (s.overwrite xs values).length = xs.length := length_foldl_set _ xs

theorem mem_overwrite {s : Slice} {xs values : List α} {x : α} (h : x ∈ s.overwrite xs values) :
    x ∈ xs ∨ x ∈ values := by
  rcases mem_foldl_set h with h | h
  · exact .inl h
  · obtain ⟨⟨i, y⟩, hpair, rfl⟩ := List.mem_map.mp h
    exact .inr (List.of_mem_zip hpair).2

/-- Deleting a slice keeps the order of what is left. -/
theorem drop_sublist (s : Slice) (xs : List α) : (s.drop xs).Sublist xs := by
  have hkeep : (s.drop xs).Sublist (xs.zipIdx.map Prod.fst) := List.filter_sublist.map Prod.fst
  rwa [List.zipIdx_map_fst] at hkeep

end Slice
end LuaBytecode
