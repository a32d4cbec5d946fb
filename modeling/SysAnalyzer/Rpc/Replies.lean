import SysAnalyzer.Query.SearchDatabase

/-!
# Replies through a callback

A request is answered by calls of a `ResultCallBack`.  The receiver puts the
texts together and takes what it has for one reply when a call is marked
`SEND_FINISH`: one reply when the last call, and no other, is marked.
-/

namespace SysAnalyzer.Rpc

open Query List

/-- The calls of a `ResultCallBack`: their texts and marks. -/
abbrev Calls := List (Bytes × SendFlag)

/-- Exactly one call is marked `SEND_FINISH`, the last one. -/
def FinishesOnce (calls : Calls) : Prop :=
  ∃ earlier last, calls = earlier ++ [(last, SendFlag.sendFinish)] ∧
    ∀ call ∈ earlier, call.2 = SendFlag.sendContinue

def delivered (calls : Calls) : Bytes := calls.flatMap Prod.fst

theorem finishesOnce_single (text : Bytes) : FinishesOnce [(text, .sendFinish)] :=
  ⟨[], text, rfl, by simp⟩

theorem not_finishesOnce_nil : ¬ FinishesOnce [] := by
  rintro ⟨earlier, last, split, -⟩
  exact absurd split (by simp)

theorem not_finishesOnce_of_early {earlier later : Calls} (text : Bytes) (more : later ≠ []) :
    ¬ FinishesOnce (earlier ++ (text, .sendFinish) :: later) := by
  rintro ⟨front, last, split, continued⟩
  have early : (text, SendFlag.sendFinish) ∈ front := by
    have whole : earlier ++ [(text, SendFlag.sendFinish)] <+:
      earlier ++ (text, .sendFinish) :: later := ⟨later, by simp⟩
    have fronted : front <+: earlier ++ (text, .sendFinish) :: later :=
      ⟨[(last, .sendFinish)], split.symm⟩
    have sizes := congrArg List.length split
    have nonempty := List.length_pos_iff.2 more
    simp only [length_append, length_cons, length_nil] at sizes
    have shorter : earlier ++ [(text, SendFlag.sendFinish)] <+: front := by
      apply prefix_of_prefix_length_le whole fronted
      simp only [length_append, length_cons, length_nil]
      omega
    exact shorter.subset (by simp)
  exact absurd (continued _ early) (by simp)

end SysAnalyzer.Rpc
