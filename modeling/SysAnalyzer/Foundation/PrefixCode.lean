import Mathlib.Data.List.Infix

/-!
# Words that a text is made of

No word of a prefix code is the start of another one, so a text is split into
words in one way only, as far as it is made of words at all.
-/

namespace SysAnalyzer.Foundation

open List

/-- A set of words none of which is empty or the start of another one. -/
structure PrefixCode (α : Type*) where
  IsWord : List α → Prop
  ne_nil : ∀ {word : List α}, IsWord word → word ≠ []
  prefixFree : ∀ {first second firstRest secondRest : List α}, IsWord first → IsWord second →
    first ++ firstRest = second ++ secondRest → first = second

namespace PrefixCode

variable {α : Type*} (code : PrefixCode α)

structure Splits (text : List α) (words : List (List α)) (rest : List α) :
    Prop where
  areWords : ∀ word ∈ words, code.IsWord word
  joined : text = words.flatten ++ rest

structure Longest (text : List α) (words : List (List α)) (rest : List α) :
    Prop extends code.Splits text words rest where
  longest : ∀ {others left}, code.Splits text others left → others <+: words

def Made (text : List α) : Prop := ∃ words, code.Splits text words []

variable {code}

theorem splits_nil (text : List α) : code.Splits text [] text := ⟨by simp, rfl⟩

theorem Splits.cons {text rest word : List α} {words : List (List α)}
    (splits : code.Splits text words rest) (isWord : code.IsWord word) :
    code.Splits (word ++ text) (word :: words) rest := by
  refine ⟨?_, ?_⟩
  · intro other member
    rcases mem_cons.1 member with rfl | behind
    · exact isWord
    · exact splits.areWords other behind
  · rw [splits.joined, flatten_cons, append_assoc]

theorem Splits.tail {text rest word : List α} {words : List (List α)}
    (splits : code.Splits (word ++ text) (word :: words) rest) : code.Splits text words rest := by
  refine ⟨fun other member => splits.areWords other (mem_cons_of_mem _ member), ?_⟩
  have joined := splits.joined
  rw [flatten_cons, append_assoc] at joined
  exact append_cancel_left joined

theorem Splits.prefix_of_stuck {text rest left : List α} {words others : List (List α)}
    (splits : code.Splits text words rest)
    (stuck : ∀ word behind, code.IsWord word → rest ≠ word ++ behind)
    (other : code.Splits text others left) : others <+: words := by
  induction words generalizing text others with
  | nil =>
    cases others with
    | nil => exact prefix_rfl
    | cons word others =>
      have isRest : rest = word ++ (others.flatten ++ left) := by
        rw [← append_assoc, ← flatten_cons, ← other.joined, splits.joined]
        rfl
      exact absurd isRest (stuck word _ (other.areWords word mem_cons_self))
  | cons word words induction =>
    cases others with
    | nil => exact nil_prefix
    | cons first others =>
      have joined := splits.joined
      have otherJoined := other.joined
      rw [flatten_cons, append_assoc] at joined otherJoined
      have same : first = word :=
        code.prefixFree (other.areWords first mem_cons_self) (splits.areWords word mem_cons_self)
          (otherJoined.symm.trans joined)
      subst same joined
      exact cons_prefix_cons.2 ⟨rfl, induction splits.tail other.tail⟩

theorem Splits.longest_of_stuck {text rest : List α} {words : List (List α)}
    (splits : code.Splits text words rest)
    (stuck : ∀ word behind, code.IsWord word → rest ≠ word ++ behind) :
    code.Longest text words rest :=
  ⟨splits, splits.prefix_of_stuck stuck⟩

theorem longest_nil : code.Longest [] [] [] := by
  refine (splits_nil []).longest_of_stuck fun word behind isWord isNil => ?_
  exact code.ne_nil isWord (append_eq_nil_iff.1 isNil.symm).1

namespace Longest

variable {text rest left : List α} {words others : List (List α)}

section

variable (longest : code.Longest text words rest)
include longest

theorem words_unique (other : code.Longest text others left) : others = words :=
  (longest.longest other.toSplits).eq_of_length_le (other.longest longest.toSplits).length_le

theorem rest_unique (other : code.Longest text others left) : left = rest := by
  have joined := other.joined
  rw [longest.words_unique other, longest.joined] at joined
  exact (append_cancel_left joined).symm

theorem rest_eq_nil_iff : rest = [] ↔ code.Made text := by
  constructor
  · rintro rfl
    exact ⟨words, longest.toSplits⟩
  · rintro ⟨others, other⟩
    rcases longest.longest other with ⟨more, rfl⟩
    have joined := other.joined
    rw [longest.joined, flatten_append, append_assoc] at joined
    have nothing := append_cancel_left joined
    exact (append_eq_nil_iff.1 nothing).2

theorem ne_append {word behind : List α} (isWord : code.IsWord word) : rest ≠ word ++ behind := by
  intro isRest
  have splits : code.Splits text (words ++ [word]) behind := by
    refine ⟨?_, ?_⟩
    · intro other member
      rcases mem_append.1 member with before | isLast
      · exact longest.areWords other before
      · rwa [mem_singleton.1 isLast]
    · rw [longest.joined, isRest]
      simp
  have shorter := (longest.longest splits).length_le
  rw [length_append, length_singleton] at shorter
  exact Nat.not_succ_le_self _ shorter

theorem cons {word : List α} (isWord : code.IsWord word) :
    code.Longest (word ++ text) (word :: words) rest :=
  (longest.toSplits.cons isWord).longest_of_stuck fun _ _ isOther => longest.ne_append isOther

end

end Longest

theorem exists_longest (code : PrefixCode α) (text : List α) :
    ∃ words rest, code.Longest text words rest := by
  induction sameLength : text.length using Nat.strongRecOn generalizing text with
  | ind length induction =>
    subst sameLength
    by_cases begins : ∃ word behind, code.IsWord word ∧ text = word ++ behind
    · rcases begins with ⟨word, behind, isWord, rfl⟩
      have shorter : behind.length < (word ++ behind).length := by
        have positive := length_pos_iff.2 (code.ne_nil isWord)
        rw [length_append]
        omega
      rcases induction _ shorter behind rfl with ⟨words, rest, longest⟩
      exact ⟨word :: words, rest, longest.cons isWord⟩
    · refine ⟨[], text, (splits_nil text).longest_of_stuck ?_⟩
      intro word behind isWord isText
      exact begins ⟨word, behind, isWord, isText⟩

end PrefixCode

end SysAnalyzer.Foundation
