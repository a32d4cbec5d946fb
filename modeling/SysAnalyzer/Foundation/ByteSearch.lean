import Mathlib.Data.List.Infix

/-!
# Searching and splitting text

`find` is the first occurrence of a word and `splitAt` cuts a text at every
occurrence of a separator and drops the empty pieces.  A separator whose first
letter is not in a piece is found exactly behind the piece, so a text that is
made of such pieces is cut back into them.
-/

namespace SysAnalyzer.Foundation

open List Option

universe u

variable {Letter : Type u} [DecidableEq Letter]

/-- The first place of a text at which a word stands. -/
def find (word : List Letter) : List Letter → Option Nat
  | [] => if word = [] then some 0 else none
  | letter :: text =>
    if word <+: letter :: text then some 0
    else (find word text).map (· + 1)

variable {text : List Letter}

section

variable {word : List Letter} {place : Nat}
  (found : find word text = some place)
include found

theorem find_bound : place + word.length ≤ text.length := by
  induction text generalizing place with
  | nil =>
    unfold find at found
    split at found
    · rename_i isNil
      cases found
      simp [isNil]
    · cases found
  | cons letter text induction =>
    unfold find at found
    split at found
    · rename_i isPrefix
      cases found
      simpa using isPrefix.length_le
    · rcases map_eq_some_iff.1 found with ⟨later, atLater, rfl⟩
      have bound := induction atLater
      simp only [length_cons]
      omega

theorem find_append (rest : List Letter) : find word (text ++ rest) = some place := by
  induction text generalizing place with
  | nil =>
    unfold find at found
    split at found
    · rename_i isNil
      cases found
      subst isNil
      cases rest with
      | nil => rfl
      | cons letter rest => exact if_pos ( nil_prefix)
    · cases found
  | cons letter text induction =>
    unfold find at found
    rw [cons_append]
    unfold find
    split at found
    · rename_i isPrefix
      cases found
      exact if_pos (isPrefix.trans (prefix_append _ rest))
    · rename_i notPrefix
      rcases map_eq_some_iff.1 found with ⟨later, atLater, rfl⟩
      have bound := find_bound atLater
      have notLater : ¬ word <+: letter :: (text ++ rest) := by
        intro isPrefix
        refine notPrefix ?_
        refine prefix_of_prefix_length_le isPrefix (prefix_append (letter :: text) rest) ?_
        simp only [length_cons]
        omega
      rw [if_neg notLater, induction atLater]
      rfl

end

theorem find_take_eq_none {word : List Letter} {place count : Nat}
    (found : find word text = some place) (short : count < place + word.length) :
    find word (text.take count) = none := by
  cases foundIn : find word (text.take count) with
  | none => rfl
  | some earlier =>
    have whole := find_append foundIn (text.drop count)
    rw [take_append_drop, found, some.injEq] at whole
    have bound := find_bound foundIn
    rw [length_take] at bound
    omega

theorem find_self (word rest : List Letter) : find word (word ++ rest) = some 0 := by
  cases text : word ++ rest with
  | nil =>
    unfold find
    exact if_pos (append_eq_nil_iff.1 text).1
  | cons letter text' =>
    unfold find
    refine if_pos ?_
    rw [← text]
    exact prefix_append word rest

variable {first : Letter}

theorem find_skip (word : List Letter) {block : List Letter}
    (notIn : first ∉ block) (rest : List Letter) :
    find (first :: word) (block ++ rest) = (find (first :: word) rest).map (· + block.length) := by
  induction block with
  | nil => simp
  | cons letter block induction =>
    rw [mem_cons, not_or] at notIn
    have notPrefix : ¬ first :: word <+: letter :: (block ++ rest) := by
      rw [cons_prefix_cons]
      exact fun both => notIn.1 both.1
    rw [cons_append]
    conv_lhs => unfold find
    rw [if_neg notPrefix, induction notIn.2, Option.map_map]
    rfl

theorem find_eq_none_of_notMem (word : List Letter) (notIn : first ∉ text) :
    find (first :: word) text = none := by
  have skipped := find_skip word notIn []
  rw [append_nil] at skipped
  rw [skipped]
  rfl

theorem find_behind (word : List Letter) {piece : List Letter}
    (notIn : first ∉ piece) (rest : List Letter) :
    find (first :: word) (piece ++ (first :: word ++ rest)) = some piece.length := by
  rw [find_skip word notIn, find_self]
  simp

/-- The pieces between the separators, without the empty ones. -/
def splitFuel (separator : List Letter) : Nat → List Letter → List (List Letter)
  | 0, _ => []
  | fuel + 1, source =>
    match find separator source with
    | some place =>
      let token := source.take place
      let rest := splitFuel separator fuel (source.drop (place + separator.length))
      if token = [] then rest else token :: rest
    | none => if source = [] then [] else [source]

variable {pieces : List (List Letter)}

theorem splitFuel_intercalate {word : List Letter} (nonempty : ∀ piece ∈ pieces, piece ≠ [])
    (notIn : ∀ piece ∈ pieces, first ∉ piece) {fuel : Nat} (enough : pieces.length < fuel) :
    splitFuel (first :: word) fuel ((first :: word).intercalate pieces) = pieces := by
  induction fuel generalizing pieces with
  | zero => exact absurd enough (Nat.not_lt_zero _)
  | succ fuel induction =>
    match pieces with
    | [] => simp [splitFuel, find]
    | [piece] =>
      have pieceNonempty := nonempty piece mem_cons_self
      have none := find_eq_none_of_notMem word (notIn piece mem_cons_self)
      simp [splitFuel, none, pieceNonempty]
    | piece :: next :: rest =>
      have pieceNonempty := nonempty piece mem_cons_self
      have pieceNotIn := notIn piece mem_cons_self
      have later :=
        induction (fun other member => nonempty other (mem_cons_of_mem _ member))
          (fun other member => notIn other (mem_cons_of_mem _ member))
          (by simpa using enough)
      have text : (first :: word).intercalate (piece :: next :: rest) = piece ++ (first :: word ++
        (first :: word).intercalate (next :: rest)) := by
        rw [List.intercalate_cons_cons, append_assoc]
      rw [text, splitFuel, find_behind word pieceNotIn]
      have dropped : (piece ++ (first :: word ++ (first :: word).intercalate (next :: rest))).drop
        (piece.length + (first :: word).length) = (first :: word).intercalate (next :: rest) := by
        rw [← drop_drop, drop_left, drop_left]
      simp only [take_left, pieceNonempty, if_false, dropped, later]

omit [DecidableEq Letter] in
theorem length_le_length_intercalate (separator : List Letter)
    (nonempty : ∀ piece ∈ pieces, piece ≠ []) :
    pieces.length ≤ (separator.intercalate pieces).length := by
  induction pieces with
  | nil => exact Nat.zero_le _
  | cons piece pieces induction =>
    have pieceLength := length_pos_iff.2 (nonempty piece mem_cons_self)
    have others :=
      induction fun other member => nonempty other (mem_cons_of_mem _ member)
    cases pieces with
    | nil =>
      rw [intercalate_singleton]
      exact pieceLength
    | cons next pieces =>
      rw [List.intercalate_cons_cons]
      simp only [length_append, length_cons] at others ⊢
      omega

/--
Two separators in a row are found behind the pieces, which are not empty.
-/
theorem find_twice_intercalate {word : List Letter} (some : pieces ≠ [])
    (nonempty : ∀ piece ∈ pieces, piece ≠ []) (notIn : ∀ piece ∈ pieces, first ∉ piece)
    (notInWord : first ∉ word) (rest : List Letter) :
    find (first :: word ++ first :: word) ((first :: word).intercalate pieces ++
      (first :: word ++ first :: word ++ rest)) =
      Option.some ((first :: word).intercalate pieces).length := by
  induction pieces with
  | nil => exact absurd rfl some
  | cons piece pieces induction =>
    have pieceNotIn := notIn piece mem_cons_self
    cases pieces with
    | nil =>
      have behind := find_behind (word ++ first :: word) pieceNotIn rest
      simpa using behind
    | cons next pieces =>
      have later :=
        induction nofun (fun other member => nonempty other (mem_cons_of_mem _ member))
          (fun other member => notIn other (mem_cons_of_mem _ member))
      have notPrefix : ¬ first :: word ++ first :: word <+:
        first :: (word ++ ((first :: word).intercalate (next :: pieces) ++
          (first :: word ++ first :: word ++ rest))) := by
        rw [← cons_append, prefix_append_right_inj]
        have nextMember : next ∈ piece :: next :: pieces := mem_cons_of_mem _ mem_cons_self
        cases next with
        | nil => exact absurd rfl (nonempty [] nextMember)
        | cons letter next =>
          have differs := notIn _ nextMember
          rw [mem_cons, not_or] at differs
          cases pieces with
          | nil =>
            rw [intercalate_singleton, cons_append, cons_prefix_cons]
            exact fun both => differs.1 both.1
          | cons other pieces =>
            rw [List.intercalate_cons_cons, cons_append, cons_append, cons_append, cons_prefix_cons]
            exact fun both => differs.1 both.1
      have atSeparator : find (first :: word ++ first :: word) (first :: (word ++
        ((first :: word).intercalate (next :: pieces) ++
          (first :: word ++ first :: word ++ rest)))) =
        Option.some (((first :: word).intercalate (next :: pieces)).length +
          word.length + 1) := by
        unfold find
        rw [if_neg notPrefix, cons_append, find_skip (word ++ first :: word) notInWord,
          ← cons_append, later]
        rfl
      rw [List.intercalate_cons_cons, append_assoc, append_assoc, cons_append, cons_append,
        find_skip (word ++ first :: word) pieceNotIn]
      refine (congrArg (Option.map _) atSeparator).trans ?_
      simp only [Option.map_some, length_append, length_cons, Option.some.injEq]
      omega

end SysAnalyzer.Foundation
