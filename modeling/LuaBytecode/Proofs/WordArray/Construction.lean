import LuaBytecode.Proofs.Profile
import LuaBytecode.Proofs.WordArray

/-! Building arrays of words: an array is built exactly from words whose number keeps to the limit, and
it holds them as they were given. -/
namespace LuaBytecode

namespace Word
open Outcome

/-- A datum is a word exactly if it is an integer below the bound; a truth value is none. -/
theorem ofDatum_eq_ok_iff {datum : Datum} {word : Nat} :
    ofDatum datum = .ok word ↔ word < bound ∧ datum = .int word := by
  constructor
  · intro h
    refine ⟨ofDatum_lt h, ?_⟩
    cases datum with
    | int value =>
      rw [ofDatum] at h
      split at h
      · rename_i hrange
        rw [← Except.ok.inj h, Int.toNat_of_nonneg hrange.1]
      · cases h
    | _ => cases h
  · rintro ⟨hlt, rfl⟩
    exact ofDatum_natCast hlt

private theorem ofData_eq_ok_iff {data : List Datum} {words : List Nat} :
    ofData data = .ok words ↔ (∀ w ∈ words, w < bound) ∧ data = words.map fun w => .int w := by
  induction data generalizing words with
  | nil =>
    constructor
    · intro h
      cases h
      simp
    · rintro ⟨_, h⟩
      rw [List.map_eq_nil_iff.mp h.symm]
      rfl
  | cons datum data ih =>
    constructor
    · intro h
      obtain ⟨word, hword, h⟩ := bind_eq_ok_iff.mp h
      obtain ⟨rest, hrest, h⟩ := bind_eq_ok_iff.mp h
      cases h
      obtain ⟨hlt, rfl⟩ := ofDatum_eq_ok_iff.mp hword
      obtain ⟨hall, rfl⟩ := ih.mp hrest
      exact ⟨List.forall_mem_cons.mpr ⟨hlt, hall⟩, rfl⟩
    · rintro ⟨hall, hdata⟩
      cases words with
      | nil => cases hdata
      | cons word words =>
        rw [List.forall_mem_cons] at hall
        obtain ⟨rfl, rfl⟩ := List.cons.inj hdata
        rw [ofData, ofDatum_natCast hall.1, ih.mpr ⟨hall.2, rfl⟩]
        rfl

theorem ofIterable_eq_ok_iff {datum : Datum} {words : List Nat} :
    ofIterable datum = .ok words ↔
      (∀ w ∈ words, w < bound) ∧ datum.elements? = some (words.map fun w => .int w) := by
  rw [ofIterable]
  cases datum.elements? with
  | none => simp
  | some data => rw [ofData_eq_ok_iff, Option.some_inj]

end Word

namespace WordArray
open Outcome

theorem append_eq_ok_iff {a a' : WordArray} {words : List Nat} :
    a.append words = .ok a' ↔
      (∀ limit, a.limit = some limit → ((a.size + words.length : Nat) : Int) ≤ limit) ∧
        a' = { a with words := a.words ++ words } := by
  rw [← checkLength_eq_ok_iff]
  constructor
  · intro h
    obtain ⟨_, hcheck, h⟩ := bind_eq_ok_iff.mp h
    exact ⟨hcheck, (pure_eq_ok_iff.mp h).symm⟩
  · rintro ⟨hcheck, rfl⟩
    rw [append, hcheck]
    rfl

/-- What an array is built from: the words themselves, as many as the limit admits. -/
theorem ofDatum_eq_ok_iff {datum : Datum} {limit : Option Int} {a : WordArray} :
    ofDatum datum limit = .ok a ↔
      a.Valid ∧ a.limit = limit ∧ datum.elements? = some (a.words.map fun w => .int w) := by
  constructor
  · intro h
    obtain ⟨words, hwords, h⟩ := bind_eq_ok_iff.mp h
    obtain ⟨hall, helements⟩ := Word.ofIterable_eq_ok_iff.mp hwords
    obtain ⟨hsize, rfl⟩ := append_eq_ok_iff.mp h
    refine ⟨⟨hall, ?_⟩, rfl, helements⟩
    simpa [size] using hsize
  · rintro ⟨ha, rfl, helements⟩
    have hwords := Word.ofIterable_eq_ok_iff.mpr ⟨ha.lt_bound, helements⟩
    rw [ofDatum, hwords, ok_bind, append_eq_ok_iff]
    refine ⟨?_, rfl⟩
    simpa [size] using ha.size_le

/-- Data are the words of an array exactly if each is an integer of 32 bits. -/
theorem exists_words_iff {data : List Datum} :
    (∃ words : List Nat, (∀ w ∈ words, w < Word.bound) ∧ data = words.map fun w => .int w) ↔
      ∀ datum ∈ data, ∃ value : Int, datum = .int value ∧ 0 ≤ value ∧ value < 2 ^ 32 := by
  constructor
  · rintro ⟨words, hall, rfl⟩ datum hdatum
    obtain ⟨w, hw, rfl⟩ := List.mem_map.mp hdatum
    exact ⟨w, rfl, Int.natCast_nonneg w, Int.ofNat_lt.mpr (hall w hw)⟩
  · intro h
    induction data with
    | nil => exact ⟨[], by simp, rfl⟩
    | cons datum data ih =>
      rw [List.forall_mem_cons] at h
      obtain ⟨⟨value, rfl, hpos, hlt⟩, hdata⟩ := h
      obtain ⟨words, hall, rfl⟩ := ih hdata
      obtain ⟨w, rfl⟩ := Int.eq_ofNat_of_zero_le hpos
      exact ⟨w :: words, List.forall_mem_cons.mpr ⟨Int.ofNat_lt.mp hlt, hall⟩, rfl⟩

/-- An array is built exactly from data that can be walked over and are all words, if their number
keeps to the limit. It holds them in their order and keeps to the limit; and after any steps, whether
they succeed or fail, it still holds words only and no more of them than the limit. -/
theorem words_after_run (datum : Datum) (limit : Option Int) :
    ((∃ a, ofDatum datum limit = .ok a) ↔
      ∃ data, datum.elements? = some data ∧
        (∀ d ∈ data, ∃ value : Int, d = .int value ∧ 0 ≤ value ∧ value < 2 ^ 32) ∧
        ∀ max, limit = some max → (data.length : Int) ≤ max) ∧
    ∀ a, ofDatum datum limit = .ok a →
      datum.elements? = some (a.words.map fun w => .int w) ∧
      ∀ steps : List Step,
        (∀ w ∈ (a.run steps).2.words, w < 2 ^ 32) ∧
        ∀ max, limit = some max → ((a.run steps).2.words.length : Int) ≤ max := by
  constructor
  · constructor
    · rintro ⟨a, ha⟩
      obtain ⟨hvalid, rfl, helements⟩ := ofDatum_eq_ok_iff.mp ha
      refine ⟨_, helements, exists_words_iff.mp ⟨a.words, hvalid.lt_bound, rfl⟩, ?_⟩
      simpa [size] using hvalid.size_le
    · rintro ⟨data, helements, hdata, hsize⟩
      obtain ⟨words, hall, rfl⟩ := exists_words_iff.mpr hdata
      refine ⟨⟨words, limit⟩, ofDatum_eq_ok_iff.mpr ⟨⟨hall, ?_⟩, rfl, helements⟩⟩
      simpa [size] using hsize
  · intro a ha
    obtain ⟨hvalid, rfl, helements⟩ := ofDatum_eq_ok_iff.mp ha
    refine ⟨helements, fun steps => ?_⟩
    obtain ⟨hrun, hlimit⟩ := hvalid.run steps
    exact ⟨hrun.lt_bound, fun max hmax => hrun.size_le max (hlimit.trans hmax)⟩

/-- Two words become three under a limit of three; twice the words and a truth value are refused. -/
theorem words_after_run_pair :
    ∃ a, ofDatum (.tuple [.int 7, .int 0xffffffff]) (some 3) = .ok a ∧
      (a.run [.extendSelf, .append (.bool true), .insert (-9) (.int 0),
        .set (.slice ⟨none, none, some (-1)⟩) (.list [.int 1, .int 2, .int 3])]).2.words =
          [3, 2, 1] ∧
      ∀ steps : List Step, (∀ w ∈ (a.run steps).2.words, w < 2 ^ 32) ∧
        ((a.run steps).2.words.length : Int) ≤ 3 := by
  have hbuild : ofDatum (.tuple [.int 7, .int 0xffffffff]) (some 3) = .ok ⟨[7, 0xffffffff], some 3⟩ :=
    rfl
  refine ⟨_, hbuild, by decide, fun steps => ?_⟩
  obtain ⟨hwords, hsize⟩ := ((words_after_run _ _).2 _ hbuild).2 steps
  exact ⟨hwords, hsize 3 rfl⟩

end WordArray
end LuaBytecode
