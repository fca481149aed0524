import LuaBytecode.Text.Blank
import Mathlib.Data.List.Basic
import Mathlib.Data.List.TakeWhile

/-! Texts without blanks at their ends: what is taken away is blank, and what is left neither starts
nor ends with a blank, in one way only. -/
namespace LuaBytecode.Text

/-- Nothing but blanks is taken from the ends of a text. -/
theorem exists_eq_append_trim (cs : List Char) :
    ∃ front back, (∀ c ∈ front, isBlank c = true) ∧ (∀ c ∈ back, isBlank c = true) ∧
      cs = front ++ trim cs ++ back := by
  let body := cs.dropWhile isBlank
  refine ⟨cs.takeWhile isBlank, (body.reverse.takeWhile isBlank).reverse, ?_, ?_, ?_⟩
  · intro c hc
    exact List.mem_takeWhile_imp hc
  · intro c hc
    exact List.mem_takeWhile_imp (List.mem_reverse.mp hc)
  · have hbody : trim cs ++ (body.reverse.takeWhile isBlank).reverse = body := by
      rw [trim, ← List.reverse_append, List.takeWhile_append_dropWhile, List.reverse_reverse]
    rw [List.append_assoc, hbody, List.takeWhile_append_dropWhile]

private theorem isBlank_of_head?_dropWhile {cs : List Char} {c : Char}
    (hc : c ∈ (cs.dropWhile isBlank).head?) : isBlank c = false := by
  have hstop := List.head?_dropWhile_not isBlank cs
  rw [Option.mem_def.mp hc] at hstop
  exact hstop

theorem isBlank_of_head?_trim {cs : List Char} {c : Char} (hc : c ∈ (trim cs).head?) :
    isBlank c = false := by
  -- what is left starts where the blanks at the front stop
  refine @isBlank_of_head?_dropWhile cs c ?_
  have hbody := List.takeWhile_append_dropWhile (p := isBlank) (l := (cs.dropWhile isBlank).reverse)
  rw [← List.reverse_inj, List.reverse_append, List.reverse_reverse] at hbody
  rw [← hbody]
  exact List.mem_head?_append_of_mem_head? hc

theorem isBlank_of_getLast?_trim {cs : List Char} {c : Char} (hc : c ∈ (trim cs).getLast?) :
    isBlank c = false := by
  rw [trim, List.getLast?_reverse] at hc
  exact isBlank_of_head?_dropWhile hc

private theorem dropWhile_eq_self {p : Char → Bool} {cs : List Char}
    (h : ∀ c ∈ cs.head?, p c = false) : cs.dropWhile p = cs := by
  cases cs with
  | nil => rfl
  | cons c cs =>
    have hc := h c rfl
    rw [List.dropWhile_cons_of_neg (by simp [hc])]

/-- A text that neither starts nor ends with a blank is what is left of it between any blanks. -/
theorem trim_append {front body back : List Char} (hne : body ≠ [])
    (hfront : ∀ c ∈ front, isBlank c = true) (hback : ∀ c ∈ back, isBlank c = true)
    (hfirst : ∀ c ∈ body.head?, isBlank c = false)
    (hlast : ∀ c ∈ body.getLast?, isBlank c = false) :
    trim (front ++ body ++ back) = body := by
  have hstart : ∀ c ∈ (body ++ back).head?, isBlank c = false := by
    rwa [List.head?_append_of_ne_nil _ hne]
  have hback' : ∀ c ∈ back.reverse, isBlank c = true := by
    intro c hc
    exact hback c (List.mem_reverse.mp hc)
  have hend : ∀ c ∈ body.reverse.head?, isBlank c = false := by
    rwa [List.head?_reverse]
  rw [trim, List.append_assoc, List.dropWhile_append_of_pos hfront, dropWhile_eq_self hstart,
    List.reverse_append, List.dropWhile_append_of_pos hback', dropWhile_eq_self hend,
    List.reverse_reverse]

end LuaBytecode.Text
