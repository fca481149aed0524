import LuaBytecode.Proofs.WordArray.Faults

/-! Slices of an array: which places a slice selects, by the rule for the direction of its step, and that
looking, deleting and replacing touch these places and no others. -/
namespace LuaBytecode

namespace Slice
variable {α : Type} {s : Slice}

/-- The place of a bound among `n`. A negative bound counts from the end; a bound before the first place
or past the last is moved to where the step starts or stops on that side. -/
def resolve (n : Nat) (stride bound : Int) : Int :=
  if bound < -n then if stride < 0 then -1 else 0
  else if bound < 0 then bound + n
  else if bound < n then bound
  else if stride < 0 then n - 1 else n

/-- The places that a slice selects among `n`: those from `lo` on, a step apart, that come before `hi` in
the direction of the step. -/
structure Selects (s : Slice) (n : Nat) (lo hi : Int) (places : List Nat) : Prop where
  lo_eq : lo = s.start.elim (if s.stride < 0 then (n : Int) - 1 else 0) (resolve n s.stride)
  hi_eq : hi = s.stop.elim (if s.stride < 0 then -1 else (n : Int)) (resolve n s.stride)
  place_eq : ∀ k (hk : k < places.length), (places[k] : Int) = lo + k * s.stride
  lt_length_iff : ∀ k : Nat, k < places.length ↔
    if s.stride < 0 then hi < lo + k * s.stride else lo + k * s.stride < hi
  lt_size : ∀ i ∈ places, i < n
  nodup : places.Nodup

theorem clamp_eq_resolve (n : Nat) (stride bound : Int) : clamp n stride bound = resolve n stride bound := by
  rw [clamp, resolve]
  split_ifs <;> omega

private theorem first_eq (s : Slice) (n : Nat) :
    s.first n = s.start.elim (if s.stride < 0 then (n : Int) - 1 else 0) (resolve n s.stride) := by
  rw [first]
  cases s.start with
  | none => rfl
  | some bound => exact clamp_eq_resolve n s.stride bound

private theorem last_eq (s : Slice) (n : Nat) :
    s.last n = s.stop.elim (if s.stride < 0 then -1 else (n : Int)) (resolve n s.stride) := by
  rw [last]
  cases s.stop with
  | none => rfl
  | some bound => exact clamp_eq_resolve n s.stride bound

/-- How often a step of `m` can be taken from `x` on without reaching `y`. -/
private theorem lt_steps_iff {x y m : Int} (hm : 0 < m) (k : Nat) :
    (k < if x < y then ((y - x - 1) / m).toNat + 1 else 0) ↔ x + k * m < y := by
  have hpos : 0 ≤ k * m := Int.mul_nonneg (Int.natCast_nonneg k) (Int.le_of_lt hm)
  split_ifs with hxy
  · have hdiv : 0 ≤ (y - x - 1) / m := Int.ediv_nonneg (by omega) (Int.le_of_lt hm)
    have hsteps : (k : Int) ≤ (y - x - 1) / m ↔ k * m ≤ y - x - 1 := Int.le_ediv_iff_mul_le hm
    omega
  · omega

theorem lt_count_iff (hs : s.stride ≠ 0) (n k : Nat) :
    k < s.count n ↔
      if s.stride < 0 then s.last n < s.first n + k * s.stride
      else s.first n + k * s.stride < s.last n := by
  rw [count]
  by_cases hback : s.stride < 0
  · -- the way back from `first` to `last` is as long as the way there
    rw [if_pos hback, if_pos hback, lt_steps_iff (Int.neg_pos.mpr hback), Int.mul_neg]
    omega
  · rw [if_neg hback, if_neg hback, lt_steps_iff (by omega)]

@[simp] theorem length_positions (s : Slice) (n : Nat) : (s.positions n).length = s.count n := by
  simp [positions]

theorem place_bounds (hs : s.stride ≠ 0) {n k : Nat} (hk : k < s.count n) :
    0 ≤ s.first n + k * s.stride ∧ s.first n + k * s.stride < n := by
  have hfirst := inReach_first s n
  have hlast := inReach_last s n
  have hbefore := (lt_count_iff hs n k).mp hk
  rw [InReach] at hfirst hlast
  split_ifs at hfirst hlast hbefore with hback
  · have hdown : k * s.stride ≤ 0 := Int.mul_nonpos_of_nonneg_of_nonpos (Int.natCast_nonneg k) hback.le
    omega
  · have hup : 0 ≤ k * s.stride := Int.mul_nonneg (Int.natCast_nonneg k) (Int.not_lt.mp hback)
    omega

/-- A slice selects the places that the rule for its step names. -/
theorem selects_positions (hs : s.stride ≠ 0) (n : Nat) :
    s.Selects n (s.first n) (s.last n) (s.positions n) := by
  have hplace : ∀ k (hk : k < (s.positions n).length),
      ((s.positions n)[k] : Int) = s.first n + k * s.stride := by
    intro k hk
    rw [length_positions] at hk
    simp [positions, (place_bounds hs hk).1]
  refine ⟨first_eq s n, last_eq s n, hplace, ?_, ?_, ?_⟩
  · intro k
    rw [length_positions]
    exact lt_count_iff hs n k
  · intro i hi
    obtain ⟨k, hk, rfl⟩ := List.mem_iff_getElem.mp hi
    have hbounds := place_bounds hs (length_positions s n ▸ hk)
    have heq := hplace k hk
    omega
  · refine List.pairwise_iff_getElem.mpr fun j k hj hk hlt heq => ?_
    have hsame : (j : Int) * s.stride = k * s.stride := by
      have hj := hplace j hj
      have hk := hplace k hk
      omega
    exact absurd (Int.eq_of_mul_eq_mul_right hs hsame) (by omega)

/-! The elements at the selected places. -/

private theorem map_some_filterMap {β : Type} {f : β → Option α} {xs : List β}
    (h : ∀ x ∈ xs, (f x).isSome) : (xs.filterMap f).map some = xs.map f := by
  induction xs with
  | nil => rfl
  | cons x xs ih =>
    rw [List.forall_mem_cons] at h
    obtain ⟨y, hy⟩ := Option.isSome_iff_exists.mp h.1
    rw [List.filterMap_cons_some hy, List.map_cons, List.map_cons, ih h.2, hy]

theorem map_some_select (hs : s.stride ≠ 0) (xs : List α) :
    (s.select xs).map some = (s.positions xs.length).map (xs[·]?) := by
  apply map_some_filterMap
  intro i hi
  simpa using (selects_positions hs xs.length).lt_size i hi

/-- What is left are the elements at the other places, in their order. -/
theorem map_some_drop (s : Slice) (xs : List α) :
    (s.drop xs).map some =
      ((List.range xs.length).filter (· ∉ s.positions xs.length)).map (xs[·]?) := by
  have hindex : xs.zipIdx.map Prod.snd = List.range xs.length := by
    rw [List.zipIdx_map_snd, List.range_eq_range']
  rw [← hindex, List.filter_map, List.map_map, drop, List.map_map]
  have hfilter : (fun pair : α × Nat => !(s.positions xs.length).contains pair.2) =
      (fun i => decide (i ∉ s.positions xs.length)) ∘ Prod.snd := by
    funext pair
    simp
  rw [hfilter]
  apply List.map_congr_left
  rintro ⟨x, i⟩ hpair
  exact (List.mem_zipIdx_iff_getElem?.mp (List.mem_of_mem_filter hpair)).symm

/-! Replacing the elements at the selected places. -/

private theorem getElem?_foldl_set_of_not_mem {pairs : List (Nat × α)} {xs : List α} {i : Nat}
    (h : i ∉ pairs.map Prod.fst) :
    (pairs.foldl (fun xs (i, x) => xs.set i x) xs)[i]? = xs[i]? := by
  induction pairs generalizing xs with
  | nil => rfl
  | cons pair pairs ih =>
    rw [List.map_cons, List.mem_cons, not_or] at h
    rw [List.foldl_cons, ih h.2, List.getElem?_set_ne (Ne.symm h.1)]

/-- Where no place is given twice, each place ends up with its own value. -/
private theorem getElem?_foldl_set_of_mem {pairs : List (Nat × α)} {xs : List α} {i : Nat} {x : α}
    (hnodup : (pairs.map Prod.fst).Nodup) (h : (i, x) ∈ pairs) (hi : i < xs.length) :
    (pairs.foldl (fun xs (i, x) => xs.set i x) xs)[i]? = some x := by
  induction pairs generalizing xs with
  | nil => cases h
  | cons pair pairs ih =>
    rw [List.map_cons, List.nodup_cons] at hnodup
    rcases List.mem_cons.mp h with rfl | h
    · rw [List.foldl_cons, getElem?_foldl_set_of_not_mem hnodup.1, List.getElem?_set_self hi]
    · exact ih hnodup.2 h (by simpa using hi)

private theorem getElem?_overwrite_of_not_mem {xs values : List α} {i : Nat}
    (h : i ∉ s.positions xs.length) : (s.overwrite xs values)[i]? = xs[i]? := by
  apply getElem?_foldl_set_of_not_mem
  intro hi
  obtain ⟨pair, hpair, rfl⟩ := List.mem_map.mp hi
  exact h (List.of_mem_zip hpair).1

/-- The places that are selected get the values in their order. -/
theorem map_getElem?_overwrite (hs : s.stride ≠ 0) {xs values : List α}
    (hlen : values.length = s.count xs.length) :
    (s.positions xs.length).map ((s.overwrite xs values)[·]?) = values.map some := by
  have hselects := selects_positions hs xs.length
  have hkeys : ((s.positions xs.length).zip values).map Prod.fst = s.positions xs.length :=
    List.map_fst_zip (by simp [hlen])
  apply List.ext_getElem
  · simp [hlen]
  intro k hk hk'
  rw [List.length_map] at hk hk'
  rw [List.getElem_map, List.getElem_map]
  refine getElem?_foldl_set_of_mem ?_ ?_ (hselects.lt_size _ (List.getElem_mem hk))
  · rw [hkeys]
    exact hselects.nodup
  · exact List.mem_iff_getElem.mpr ⟨k, by simp; omega, by simp⟩

private theorem select_overwrite (hs : s.stride ≠ 0) {xs values : List α}
    (hlen : values.length = s.count xs.length) : s.select (s.overwrite xs values) = values := by
  have hmap := map_some_select hs (s.overwrite xs values)
  rw [length_overwrite, map_getElem?_overwrite hs hlen] at hmap
  exact List.map_injective_iff.mpr (Option.some_injective α) hmap

end Slice

namespace WordArray
open Outcome
variable {a a' : WordArray} {s : Slice}

theorem checkStep_eq_ok (hs : s.stride ≠ 0) : checkStep s = .ok () := if_neg hs

private theorem step_getSlice (hs : s.stride ≠ 0) (a : WordArray) :
    a.step (.get (.slice s)) = (.ok (.words (s.select a.words)), a) := by
  rw [step, advance, getSlice, checkStep_eq_ok hs]
  rfl

private theorem step_deleteSlice (hs : s.stride ≠ 0) (a : WordArray) :
    a.step (.delete (.slice s)) = (.ok .nothing, { a with words := s.drop a.words }) := by
  rw [step, advance, deleteSlice, checkStep_eq_ok hs]
  rfl

private theorem setSlice_of_step {value : Datum} {reply : Reply}
    (h : a.step (.set (.slice s) value) = (.ok reply, a')) : a.setSlice s value = .ok a' := by
  rw [step, advance] at h
  cases hset : a.setSlice s value with
  | error fault =>
    rw [hset] at h
    cases h
  | ok a₁ =>
    rw [hset] at h
    cases h
    rfl

/-- A slice with a step other than zero selects places by the rule for the direction of its step, each of
them once. Looking gives the words at these places in the order of the slice, and deleting leaves the
words at the others in their own. Replacing with a step other than one puts each value at its place and
leaves the other places, so that looking gives the values; replacing with a step of one, or with none
given, puts the values between what comes before the run and what comes after it. -/
theorem slice_touches_places (hs : s.step ≠ some 0) (a : WordArray) :
    ∃ lo hi places, s.Selects a.size lo hi places ∧
      (∃ words, a.step (.get (.slice s)) = (.ok (.words words), a) ∧
        words.map some = places.map (a.words[·]?)) ∧
      (∃ words, a.step (.delete (.slice s)) = (.ok .nothing, { a with words }) ∧
        words.map some = ((List.range a.size).filter (· ∉ places)).map (a.words[·]?)) ∧
      ∀ value reply a', a.step (.set (.slice s) value) = (.ok reply, a') →
        ∃ values : List Nat, value.elements? = some (values.map fun v => .int v) ∧
          a'.limit = a.limit ∧
          (s.step ≠ none → s.step ≠ some 1 →
            a'.size = a.size ∧ places.map (a'.words[·]?) = values.map some ∧
            (∀ i ∉ places, a'.words[i]? = a.words[i]?) ∧
            a'.step (.get (.slice s)) = (.ok (.words values), a')) ∧
          (s.step = none ∨ s.step = some 1 →
            a'.words = a.words.take lo.toNat ++ values ++ a.words.drop (max lo hi).toNat) := by
  have hstride : s.stride ≠ 0 := fun hzero => hs (Slice.stride_eq_zero_iff.mp hzero)
  refine ⟨_, _, _, Slice.selects_positions hstride a.size,
    ⟨_, step_getSlice hstride a, Slice.map_some_select hstride a.words⟩,
    ⟨_, step_deleteSlice hstride a, s.map_some_drop a.words⟩, ?_⟩
  intro value reply a' hset
  obtain ⟨values, hvalues, hcount, _, rfl⟩ := setSlice_eq_ok (setSlice_of_step hset)
  refine ⟨values, (Word.ofIterable_eq_ok_iff.mp hvalues).2, rfl, ?_, ?_⟩
  · intro hstep hone
    have hplain : ¬ s.isPlain = true := by
      rw [isPlain_iff]
      exact fun h => h.elim hstep hone
    have hlen : values.length = s.count a.words.length := hcount.resolve_left hplain
    simp only [if_neg hplain, step_getSlice hstride, size, Slice.select_overwrite hstride hlen]
    refine ⟨Slice.length_overwrite .., Slice.map_getElem?_overwrite hstride hlen, ?_, trivial⟩
    exact fun i hi => Slice.getElem?_overwrite_of_not_mem hi
  · intro hstep
    have hmax : (max (s.first a.size) (s.last a.size)).toNat =
        max (s.first a.size).toNat (s.last a.size).toNat := by omega
    rw [if_pos ((isPlain_iff s).mpr hstep), Slice.splice, hmax]
    rfl

/-- Every other word from the end on is looked at and deleted, and then replaced, after which looking
gives the new words. -/
theorem slice_touches_places_backwards :
    let a : WordArray := ⟨[10, 20, 30, 40, 50], some 5⟩
    let a' : WordArray := ⟨[3, 20, 2, 40, 1], some 5⟩
    let s : Slice := ⟨none, none, some (-2)⟩
    s.step ≠ some 0 ∧
    (∃ lo hi places, s.Selects 5 lo hi places ∧ [50, 30, 10].map some = places.map (a.words[·]?) ∧
      [20, 40].map some = ((List.range 5).filter (· ∉ places)).map (a.words[·]?)) ∧
    a.step (.set (.slice s) (.tuple [.int 1, .int 2, .int 3])) = (.ok .nothing, a') ∧
    a'.step (.get (.slice s)) = (.ok (.words [1, 2, 3]), a') := by
  intro a a' s
  have hs : s.step ≠ some 0 := by decide
  have hset : a.step (.set (.slice s) (.tuple [.int 1, .int 2, .int 3])) = (.ok .nothing, a') := by
    decide
  obtain ⟨lo, hi, places, hselects, ⟨words, hget, hwords⟩, ⟨left, hdelete, hleft⟩, hreplace⟩ :=
    slice_touches_places hs a
  obtain ⟨values, hvalues, _, hstep, _⟩ := hreplace _ _ _ hset
  have hpicked : a.step (.get (.slice s)) = (.ok (.words [50, 30, 10]), a) := by decide
  have hkept : a.step (.delete (.slice s)) = (.ok .nothing, ⟨[20, 40], some 5⟩) := by decide
  rw [hpicked] at hget
  rw [hkept] at hdelete
  cases hget
  cases hdelete
  refine ⟨hs, ⟨lo, hi, places, hselects, hwords, hleft⟩, hset, ?_⟩
  have hint : Function.Injective fun v : Nat => Datum.int v :=
    fun v w h => Int.ofNat.inj (Datum.int.inj h)
  have hnew : [1, 2, 3] = values := List.map_injective_iff.mpr hint (Option.some.inj hvalues)
  rw [hnew]
  exact (hstep (by decide) (by decide)).2.2.2

end WordArray
end LuaBytecode
