import LuaBytecode.Proofs.Text.Blank
import LuaBytecode.Text.Hex
import Mathlib.Tactic.IntervalCases

/-! Hexadecimal texts: a word is written as eight digits in upper case that denote it, and bytes are
read from exactly the texts that write them as pairs of digits. -/
namespace LuaBytecode.Text

theorem digits_lt {base n d : Nat} (hbase : 2 ≤ base) (h : d ∈ digits base n) : d < base := by
  fun_induction digits base n with
  | case1 n hn =>
    rw [List.mem_singleton.mp h]
    omega
  | case2 n hn ih =>
    rcases List.mem_append.mp h with h | h
    · exact ih h
    · rw [List.mem_singleton.mp h]
      exact Nat.mod_lt n (by omega)

private theorem foldl_digits (base n : Nat) :
    (digits base n).foldl (fun value d => base * value + d) 0 = n := by
  fun_induction digits base n with
  | case1 n hn => simp
  | case2 n hn ih =>
    rw [List.foldl_append, ih]
    exact Nat.div_add_mod n base

private theorem length_digits_le {base n k : Nat} (hk : 0 < k) (h : n < base ^ k) :
    (digits base n).length ≤ k := by
  fun_induction digits base n generalizing k with
  | case1 n hn => exact hk
  | case2 n hn ih =>
    -- two or more digits take a bound of two or more places
    obtain ⟨k, rfl⟩ := Nat.exists_eq_succ_of_ne_zero hk.ne'
    have hplaces : 0 < k := by
      apply Nat.pos_of_ne_zero
      intro hzero
      rw [hzero, Nat.pow_one] at h
      exact hn (.inl h)
    have hdiv : n / base < base ^ k := Nat.div_lt_of_lt_mul (by rwa [Nat.pow_succ'] at h)
    rw [List.length_append, List.length_singleton]
    exact Nat.succ_le_succ (ih hplaces hdiv)

namespace Hex

def lowerDigits : List Char := "0123456789abcdef".toList

def upperDigits : List Char := "0123456789ABCDEF".toList

/-- The number that a run of upper-case digits denotes. -/
def value (cs : List Char) : Nat := cs.foldl (fun n c => 16 * n + upperDigits.idxOf c) 0

private theorem mem_upperDigits {d : Nat} (hd : d < 16) : (digitChar d).toUpper ∈ upperDigits := by
  interval_cases d <;> decide

private theorem idxOf_upperDigits {d : Nat} (hd : d < 16) :
    upperDigits.idxOf (digitChar d).toUpper = d := by
  interval_cases d <;> decide

theorem value_digits (n : Nat) :
    value ((digits 16 n).map fun d => (digitChar d).toUpper) = n := by
  rw [value, List.foldl_map]
  refine Eq.trans ?_ (foldl_digits 16 n)
  apply List.foldl_ext
  intro m d hd
  rw [idxOf_upperDigits (digits_lt (by decide) hd)]

private theorem value_zeros (k : Nat) (cs : List Char) : value (List.replicate k '0' ++ cs) = value cs := by
  induction k with
  | zero => rfl
  | succ k ih => exact ih

/-- Eight upper-case digits that denote a word. -/
structure WritesWord (cs : List Char) (word : Nat) : Prop where
  length_eq : cs.length = 8
  digits : ∀ c ∈ cs, c ∈ upperDigits
  value_eq : value cs = word

theorem writesWord_wordHex {word : Nat} (h : word < 16 ^ 8) :
    WritesWord (wordHex word).toList word := by
  rw [wordHex, String.toList_ofList, padLeft]
  refine ⟨?_, ?_, ?_⟩
  · have hlength := length_digits_le (k := 8) (by decide) h
    rw [List.length_append, List.length_replicate, List.length_map]
    omega
  · intro c hc
    rcases List.mem_append.mp hc with hc | hc
    · rw [List.eq_of_mem_replicate hc]
      decide
    · obtain ⟨d, hd, rfl⟩ := List.mem_map.mp hc
      exact mem_upperDigits (digits_lt (by decide) hd)
  · rw [value_zeros, value_digits]

/-! Bytes as pairs of digits. -/

/-- A character spells a digit, in either case. -/
def Spells (d : Nat) (c : Char) : Prop := lowerDigits[d]? = some c ∨ upperDigits[d]? = some c

instance (d : Nat) (c : Char) : Decidable (Spells d c) := inferInstanceAs (Decidable (_ ∨ _))

/-- The blanks of ASCII: tab, line feed, vertical tab, form feed, carriage return and space. -/
def spaces : List Char := ['\t', '\n', '\x0b', '\x0c', '\r', ' ']

/-- What holds of the first 128 characters can be tested one by one. -/
private theorem forall_ascii {P : Char → Prop} (h : ∀ n < 128, P (Char.ofNat n)) {c : Char}
    (hc : c.toNat < 128) : P c := by
  have hP := h c.toNat hc
  rwa [Char.ofNat_toNat] at hP

theorem isSpace_iff {c : Char} : isSpace c = true ↔ c ∈ spaces := by
  have hback : ∀ c ∈ spaces, isSpace c = true := List.all_eq_true.mp (by decide)
  refine ⟨?_, hback c⟩
  intro h
  have hc : c.toNat < 128 := by
    simp only [isSpace, Bool.or_eq_true, Bool.and_eq_true, decide_eq_true_eq, beq_iff_eq] at h
    omega
  exact forall_ascii (P := fun c => isSpace c = true → c ∈ spaces) (by decide) hc h

theorem isBlank_of_mem_spaces {c : Char} (h : c ∈ spaces) : isBlank c = true := by
  have hall : spaces.all isBlank = true := by decide
  exact List.all_eq_true.mp hall c h

theorem Spells.lt {d : Nat} {c : Char} (h : Spells d c) : d < 16 := by
  rcases h with h | h
  · exact (List.getElem?_eq_some_iff.mp h).1
  · exact (List.getElem?_eq_some_iff.mp h).1

theorem digit?_eq_some_iff {c : Char} {d : Nat} : digit? c = some d ↔ Spells d c := by
  constructor
  · intro h
    have hc : c.toNat < 128 := by
      rw [digit?] at h
      split_ifs at h with hdecimal hlower hupper
      · exact Nat.lt_of_le_of_lt hdecimal.2 (by decide)
      · exact Nat.lt_of_le_of_lt hlower.2 (by decide)
      · exact Nat.lt_of_le_of_lt hupper.2 (by decide)
    exact forall_ascii (P := fun c => ∀ d ∈ digit? c, Spells d c) (by decide) hc d h
  · intro h
    have hall : ∀ d < 16, lowerDigits[d]?.bind digit? = some d ∧
        upperDigits[d]?.bind digit? = some d := by decide
    obtain ⟨hlower, hupper⟩ := hall d h.lt
    rcases h with h | h
    · rwa [h] at hlower
    · rwa [h] at hupper

theorem Spells.mem {d : Nat} {c : Char} (h : Spells d c) : c ∈ lowerDigits ++ upperDigits := by
  rcases h with h | h
  · exact List.mem_append_left _ (List.mem_of_getElem? h)
  · exact List.mem_append_right _ (List.mem_of_getElem? h)

theorem isBlank_of_spells {d : Nat} {c : Char} (h : Spells d c) : isBlank c = false := by
  have hall : (lowerDigits ++ upperDigits).all (!isBlank ·) = true := by decide
  exact Bool.eq_false_of_not_eq_true' (List.all_eq_true.mp hall c h.mem)

private theorem isSpace_of_spells {d : Nat} {c : Char} (h : Spells d c) : isSpace c = false := by
  rw [← Bool.not_eq_true, isSpace_iff]
  intro hspace
  exact Bool.noConfusion ((isBlank_of_spells h).symm.trans (isBlank_of_mem_spaces hspace))

/-- Bytes written one after the other, each as two digits with any blanks of ASCII before them. -/
inductive Writes : Bytes → List Char → Prop
  | nil : Writes [] []
  | cons {gap cs : List Char} {c d : Char} {byte : UInt8} {bytes : Bytes}
      (gap_spaces : ∀ g ∈ gap, g ∈ spaces) (high : Spells (byte.toNat / 16) c)
      (low : Spells (byte.toNat % 16) d) (rest : Writes bytes cs) :
      Writes (byte :: bytes) (gap ++ c :: d :: cs)

theorem Writes.pair {byte : UInt8} {bytes : Bytes} {c d : Char} {cs : List Char}
    (high : Spells (byte.toNat / 16) c) (low : Spells (byte.toNat % 16) d) (rest : Writes bytes cs) :
    Writes (byte :: bytes) (c :: d :: cs) := by
  have hpair := Writes.cons (List.forall_mem_nil _) high low rest
  rwa [List.nil_append] at hpair

private theorem pairs_space {c : Char} (h : isSpace c = true) (position : Nat) (rest : List Char) :
    pairs position (c :: rest) = pairs (position + 1) rest := by
  rw [pairs.eq_def]
  dsimp only
  rw [if_pos h]

private theorem pairs_pair {c d : Char} {high low : Nat} (hc : isSpace c = false)
    (hhigh : digit? c = some high) (hlow : digit? d = some low) (position : Nat) (rest : List Char) :
    pairs position (c :: d :: rest) =
      (UInt8.ofNat (16 * high + low) :: ·) <$> pairs (position + 2) rest := by
  rw [pairs.eq_def]
  simp only [hc, hhigh, hlow, Bool.false_eq_true, if_false]

private theorem pairs_gap {gap : List Char} (h : ∀ g ∈ gap, g ∈ spaces) (position : Nat)
    (rest : List Char) :
    pairs position (gap ++ rest) = pairs (position + gap.length) rest := by
  induction gap generalizing position with
  | nil => rfl
  | cons g gap ih =>
    rw [List.forall_mem_cons] at h
    rw [List.cons_append, pairs_space (isSpace_iff.mpr h.1), ih h.2, List.length_cons, Nat.add_assoc,
      Nat.add_comm 1]

private theorem ofNat_halves (byte : UInt8) :
    UInt8.ofNat (16 * (byte.toNat / 16) + byte.toNat % 16) = byte := by
  rw [Nat.div_add_mod, UInt8.ofNat_toNat]

private theorem halves_ofNat {high low : Nat} (hhigh : high < 16) (hlow : low < 16) :
    (UInt8.ofNat (16 * high + low)).toNat / 16 = high ∧
      (UInt8.ofNat (16 * high + low)).toNat % 16 = low := by
  rw [UInt8.toNat_ofNat_of_lt' (by rw [UInt8.size]; omega)]
  omega

private theorem pairs_of_writes {bytes : Bytes} {body back : List Char} (h : Writes bytes body)
    (hback : ∀ c ∈ back, c ∈ spaces) (position : Nat) :
    pairs position (body ++ back) = .ok bytes := by
  induction h generalizing position with
  | nil =>
    have hgap := pairs_gap hback position []
    rwa [List.append_nil] at hgap
  | cons gap_spaces high low rest ih =>
    rw [List.append_assoc, pairs_gap gap_spaces, List.cons_append, List.cons_append,
      pairs_pair (isSpace_of_spells high) (digit?_eq_some_iff.mpr high) (digit?_eq_some_iff.mpr low), ih,
      ofNat_halves]
    rfl

/-- What is read starts with a blank or with a pair of digits. -/
theorem pairs_cons_cases {position : Nat} {c : Char} {rest : List Char} {bytes : Bytes}
    (h : pairs position (c :: rest) = .ok bytes) :
    (isSpace c = true ∧ pairs (position + 1) rest = .ok bytes) ∨
    ∃ high d low rest' bytes', digit? c = some high ∧ digit? d = some low ∧ rest = d :: rest' ∧
      bytes = UInt8.ofNat (16 * high + low) :: bytes' ∧ pairs (position + 2) rest' = .ok bytes' := by
  by_cases hspace : isSpace c = true
  · rw [pairs_space hspace] at h
    exact .inl ⟨hspace, h⟩
  cases hhigh : digit? c with
  | none =>
    rw [pairs.eq_def] at h
    simp [hspace, hhigh] at h
  | some high =>
    cases rest with
    | nil =>
      rw [pairs.eq_def] at h
      simp [hspace, hhigh] at h
    | cons d rest' =>
      cases hlow : digit? d with
      | none =>
        rw [pairs.eq_def] at h
        simp [hspace, hhigh, hlow] at h
      | some low =>
        rw [pairs_pair (Bool.eq_false_iff.mpr hspace) hhigh hlow] at h
        cases hrest : pairs (position + 2) rest' with
        | error place =>
          rw [hrest] at h
          cases h
        | ok bytes' =>
          rw [hrest] at h
          cases h
          exact .inr ⟨high, d, low, rest', bytes', rfl, hlow, rfl, rfl, hrest⟩

private theorem writes_of_pairs {position : Nat} {cs : List Char} {bytes : Bytes}
    (h : pairs position cs = .ok bytes) :
    ∃ body back, cs = body ++ back ∧ Writes bytes body ∧ ∀ c ∈ back, c ∈ spaces := by
  -- on the length, since a blank takes one character and a pair takes two
  induction hlength : cs.length using Nat.strong_induction_on generalizing position cs bytes with
  | _ n ih =>
    subst hlength
    cases cs with
    | nil =>
      cases h
      exact ⟨[], [], rfl, .nil, by simp⟩
    | cons c rest =>
      rcases pairs_cons_cases h with ⟨hspace, hrest⟩ |
        ⟨high, d, low, rest, bytes, hhigh, hlow, rfl, rfl, hrest⟩
      · obtain ⟨body, back, rfl, hbody, hback⟩ := ih _ (Nat.lt_succ_self _) hrest rfl
        have hc := isSpace_iff.mp hspace
        cases hbody with
        | nil => exact ⟨[], c :: back, rfl, .nil, List.forall_mem_cons.mpr ⟨hc, hback⟩⟩
        | cons gap_spaces high low rest =>
          have hgap := List.forall_mem_cons.mpr ⟨hc, gap_spaces⟩
          exact ⟨_, back, rfl, .cons hgap high low rest, hback⟩
      · have hshorter : rest.length < (c :: d :: rest).length := by
          simp only [List.length_cons]
          omega
        obtain ⟨body, back, rfl, hbody, hback⟩ := ih _ hshorter hrest rfl
        rw [digit?_eq_some_iff] at hhigh hlow
        obtain ⟨hhalf, hhalf'⟩ := halves_ofNat hhigh.lt hlow.lt
        refine ⟨c :: d :: body, back, rfl, ?_, hback⟩
        exact .pair (by rwa [hhalf]) (by rwa [hhalf']) hbody

private theorem Writes.lt_ascii {bytes : Bytes} {cs : List Char} (h : Writes bytes cs) {c : Char}
    (hc : c ∈ cs) : c.toNat < 128 := by
  have hascii : (spaces ++ (lowerDigits ++ upperDigits)).all (·.toNat < 128) = true := by decide
  apply of_decide_eq_true
  apply List.all_eq_true.mp hascii
  induction h with
  | nil => cases hc
  | cons gap_spaces high low rest ih =>
    simp only [List.mem_append, List.mem_cons] at hc ⊢
    rcases hc with hc | rfl | rfl | hc
    · exact .inl (gap_spaces c hc)
    · exact .inr (List.mem_append.mp high.mem)
    · exact .inr (List.mem_append.mp low.mem)
    · have hmem := ih hc
      rwa [List.mem_append, List.mem_append] at hmem

/-- A text is read as bytes exactly if it writes them, blanks of ASCII at the end apart. -/
theorem decode_eq_ok_iff {text : String} {bytes : Bytes} :
    decode text = .ok bytes ↔
      ∃ body back, text.toList = body ++ back ∧ Writes bytes body ∧ ∀ c ∈ back, c ∈ spaces := by
  rw [decode]
  constructor
  · intro h
    split at h
    · cases h
    · exact writes_of_pairs h
  · intro ⟨body, back, htext, hbody, hback⟩
    have hascii : text.toList.findIdx? (128 ≤ ·.toNat) = none := by
      rw [List.findIdx?_eq_none_iff, htext]
      intro c hc
      have hlt : c.toNat < 128 := by
        rcases List.mem_append.mp hc with hc | hc
        · exact hbody.lt_ascii hc
        · have hspaces : spaces.all (·.toNat < 128) = true := by decide
          exact of_decide_eq_true (List.all_eq_true.mp hspaces c (hback c hc))
      simpa using hlt
    rw [hascii, htext]
    exact pairs_of_writes hbody hback 0

/-- A text writes bytes as pairs of digits, with any blanks around the whole. -/
def WritesOut (bytes : Bytes) (text : String) : Prop :=
  ∃ front body back, (∀ c ∈ front, isBlank c = true) ∧ (∀ c ∈ back, isBlank c = true) ∧
    Writes bytes body ∧ text.toList = front ++ body ++ back

theorem Writes.isBlank_of_getLast? {bytes : Bytes} {cs : List Char} (h : Writes bytes cs) {c : Char}
    (hc : c ∈ cs.getLast?) : isBlank c = false := by
  induction h with
  | nil => cases hc
  | @cons gap cs _ d _ _ gap_spaces high low rest ih =>
    rw [List.getLast?_append_of_ne_nil _ (List.cons_ne_nil _ _), List.getLast?_cons_cons] at hc
    cases cs with
    | nil =>
      cases hc
      exact isBlank_of_spells low
    | cons c' cs =>
      rw [List.getLast?_cons_cons] at hc
      exact ih hc

theorem WritesOut.exists_not_blank {bytes : Bytes} {text : String} (h : WritesOut bytes text)
    (hne : bytes ≠ []) : ∃ c ∈ text.toList, isBlank c = false := by
  obtain ⟨front, body, back, _, _, hbody, htext⟩ := h
  cases hbody with
  | nil => exact absurd rfl hne
  | @cons gap cs c d _ _ _ high _ _ =>
    refine ⟨c, ?_, isBlank_of_spells high⟩
    rw [htext]
    simp

/-- A text that is not all blank is read, without the blanks around it, as the bytes that it writes
out. -/
theorem decode_trimmed_eq_ok_iff {text : String} (h : ∃ c ∈ text.toList, isBlank c = false)
    {bytes : Bytes} : decode (trimmed text) = .ok bytes ↔ bytes ≠ [] ∧ WritesOut bytes text := by
  rw [decode_eq_ok_iff, trimmed, String.toList_ofList]
  constructor
  · intro ⟨body, gap, htrim, hbody, hgap⟩
    obtain ⟨front, back, hfront, hback, htext⟩ := exists_eq_append_trim text.toList
    have hend : ∀ c ∈ gap ++ back, isBlank c = true := by
      intro c hc
      rcases List.mem_append.mp hc with hc | hc
      · exact isBlank_of_mem_spaces (hgap c hc)
      · exact hback c hc
    rw [htrim, List.append_assoc, List.append_assoc] at htext
    refine ⟨?_, front, body, gap ++ back, hfront, hend, hbody, ?_⟩
    · -- no bytes leave nothing but blanks
      rintro rfl
      cases hbody
      obtain ⟨c, hc, hblank⟩ := h
      rw [htext, List.nil_append] at hc
      rcases List.mem_append.mp hc with hc | hc
      · exact Bool.noConfusion (hblank.symm.trans (hfront c hc))
      · exact Bool.noConfusion (hblank.symm.trans (hend c hc))
    · rw [htext, List.append_assoc]
  · intro ⟨hne, front, body, back, hfront, hback, hbody, htext⟩
    cases hbody with
    | nil => exact absurd rfl hne
    | @cons gap cs c d _ _ gap_spaces high low rest =>
      -- the blanks before the first pair go with those around the whole
      have hcore := Writes.pair high low rest
      have hstart : ∀ g ∈ front ++ gap, isBlank g = true := by
        intro g hg
        rcases List.mem_append.mp hg with hg | hg
        · exact hfront g hg
        · exact isBlank_of_mem_spaces (gap_spaces g hg)
      have hfirst : ∀ g ∈ (c :: d :: cs).head?, isBlank g = false := by
        intro g hg
        cases hg
        exact isBlank_of_spells high
      have htrim := trim_append (List.cons_ne_nil _ _) hstart hback hfirst
        fun g hg => hcore.isBlank_of_getLast? hg
      refine ⟨c :: d :: cs, [], ?_, hcore, by simp⟩
      rw [htext, ← List.append_assoc, htrim, List.append_nil]

end Hex
end LuaBytecode.Text
