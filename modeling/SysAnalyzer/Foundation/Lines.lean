import SysAnalyzer.Foundation.Run

/-!
# Texts that arrive in pieces

A text is cut at its separators into the parts each of them ends and the part
behind the last one.  A reader that takes the text piece by piece keeps that
last part and puts it in front of the next piece; what it has cut off in the end
does not depend on the pieces.
-/

namespace SysAnalyzer.Foundation

open List

universe u

variable {Letter : Type u} [DecidableEq Letter]

/-- The parts of a text that a separator ends, and what is behind the last. -/
@[ext]
structure Lines (Letter : Type u) where
  ended : List (List Letter)
  tail : List Letter

namespace Lines

/-- Put a letter that is not a separator in front of the text. -/
def push (letter : Letter) (lines : Lines Letter) : Lines Letter :=
  match lines.ended with
  | [] => ⟨[], letter :: lines.tail⟩
  | line :: others => ⟨(letter :: line) :: others, lines.tail⟩

def split (separator : Letter) : List Letter → Lines Letter
  | [] => ⟨[], []⟩
  | letter :: rest =>
    if letter = separator then ⟨[] :: (split separator rest).ended, (split separator rest).tail⟩
    else (split separator rest).push letter

variable (separator : Letter)

@[simp]
theorem split_nil : split separator [] = ⟨[], []⟩ := rfl

@[simp]
theorem split_separator (rest : List Letter) : split separator (separator :: rest) =
    ⟨[] :: (split separator rest).ended, (split separator rest).tail⟩ := by
  simp [split]

theorem split_letter {letter : Letter} (other : letter ≠ separator) (rest : List Letter) :
    split separator (letter :: rest) = (split separator rest).push letter := by
  simp [split, other]

theorem ended_eq_nil_cons_iff (text : List Letter) :
    (∃ others, (split separator text).ended = [] :: others) ↔ text.head? = some separator := by
  cases text with
  | nil => simp
  | cons letter rest =>
    by_cases ends : letter = separator
    · simp [ends]
    · simp only [split_letter separator ends, List.head?_cons, Option.some.injEq, ends, iff_false]
      rintro ⟨others, first⟩
      unfold push at first
      split at first <;> simp at first

theorem split_append (text more : List Letter) :
    split separator (text ++ more) = ⟨(split separator text).ended ++
      (split separator ((split separator text).tail ++ more)).ended,
      (split separator ((split separator text).tail ++ more)).tail⟩ := by
  induction text with
  | nil => rfl
  | cons letter rest induction =>
    by_cases ends : letter = separator
    · simp [ends, induction]
    · rw [cons_append, split_letter separator ends, induction, split_letter separator ends]
      cases cut : (split separator rest).ended with
      | nil => simp [push, cut, split_letter separator ends]
      | cons line others => simp [push, cut]

theorem split_tail (text : List Letter) :
    split separator (split separator text).tail = ⟨[], (split separator text).tail⟩ := by
  induction text with
  | nil => rfl
  | cons letter rest induction =>
    by_cases ends : letter = separator
    · simpa [ends] using induction
    · rw [split_letter separator ends]
      cases cut : (split separator rest).ended with
      | nil => simp [push, cut, split_letter separator ends, induction]
      | cons line others => simpa [push, cut] using induction

/-- The part a reader keeps after some pieces, behind the given one. -/
def kept (tail : List Letter) (pieces : List (List Letter)) : List Letter :=
  run (fun tail piece => (split separator (tail ++ piece)).tail) tail pieces

theorem kept_eq {tail : List Letter} (open_ : split separator tail = ⟨[], tail⟩)
    (pieces : List (List Letter)) :
    kept separator tail pieces = (split separator (tail ++ pieces.flatten)).tail := by
  induction pieces generalizing tail with
  | nil => simp [kept, open_]
  | cons piece rest induction =>
    have later := induction (split_tail separator (tail ++ piece))
    rw [flatten_cons, ← append_assoc, split_append, ← later]
    rfl

end Lines

end SysAnalyzer.Foundation
