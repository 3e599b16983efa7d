/-
This file is a library of doubly linked lists whose nodes live in a memory. The links are two
functions on nodes. A part of a linked list is replaced by setting the links of the new part and
the two links that lead into it.
-/
import Mathlib

namespace Constellation.Lib

open List Option

variable {ι : Type*} {prev next prev' next' : ι → Option ι}

/-- The first node points back to `before` and the last one on to `after`. -/
def Linked (prev next : ι → Option ι) : Option ι → List ι → Option ι → Prop
  | _, [], _ => True
  | before, node :: rest, after =>
    prev node = before ∧ next node = rest.head?.or after ∧ Linked prev next (some node) rest after

namespace Linked

variable {before after : Option ι} {front back : List ι}

/-- A linked list is linked in each of two parts. -/
theorem append_iff :
    Linked prev next before (front ++ back) after ↔
      Linked prev next before front (back.head?.or after) ∧
        Linked prev next (front.getLast?.or before) back after := by
  induction front generalizing before with
  | nil => simp [Linked]
  | cons node rest inductionHypothesis =>
    rw [cons_append, Linked, Linked, inductionHypothesis, head?_append, Option.or_assoc]
    have last : (node :: rest).getLast?.or before = rest.getLast?.or (some node) := by
      cases rest with
      | nil => rfl
      | cons second others =>
        rw [getLast?_cons_cons]
        cases found : (second :: others).getLast? with
        | none => exact absurd (getLast?_eq_none_iff.mp found) (cons_ne_nil _ _)
        | some final => rfl
    rw [last, and_assoc, and_assoc]

variable {nodes : List ι}

theorem congr (samePrev : ∀ node ∈ nodes, prev' node = prev node)
    (sameNext : ∀ node ∈ nodes, next' node = next node)
    (linked : Linked prev next before nodes after) : Linked prev' next' before nodes after := by
  induction nodes generalizing before with
  | nil => exact trivial
  | cons node rest inductionHypothesis =>
    refine ⟨?_, ?_, ?_⟩
    · rw [samePrev node (.head _), linked.1]
    · rw [sameNext node (.head _), linked.2.1]
    · exact inductionHypothesis (forall_mem_cons.mp samePrev).2
        (forall_mem_cons.mp sameNext).2 linked.2.2

theorem links {node : ι} (linked : Linked prev next before (front ++ node :: back) after) :
    prev node = front.getLast?.or before ∧ next node = back.head?.or after :=
  have part := (append_iff.mp linked).2
  ⟨part.1, part.2.1⟩

section

variable (distinct : nodes.Nodup) (linked : Linked prev next before nodes after)
include distinct linked

theorem changeNext {after' : Option ι} (samePrev : ∀ node ∈ nodes, prev' node = prev node)
    (sameNext : ∀ node ∈ nodes, nodes.getLast? ≠ some node → next' node = next node)
    (last : ∀ node, nodes.getLast? = some node → next' node = after') :
    Linked prev' next' before nodes after' := by
  rcases eq_nil_or_concat nodes with rfl | ⟨front, final, rfl⟩
  · exact trivial
  · rw [concat_eq_append] at *
    rw [append_iff] at linked ⊢
    have isLast : (front ++ [final]).getLast? = some final := by simp
    have others : ∀ node ∈ front, (front ++ [final]).getLast? ≠ some node := by
      intro node member equal
      rw [isLast, Option.some.injEq] at equal
      subst equal
      exact (nodup_append.mp distinct).2.2 _ member _ (.head _) rfl
    refine ⟨?_, ?_, ?_, trivial⟩
    · refine congr ?_ ?_ linked.1
      · exact fun node member => samePrev node (mem_append_left _ member)
      · exact fun node member => sameNext node (mem_append_left _ member) (others node member)
    · rw [samePrev final (mem_append_right _ (.head _))]
      exact linked.2.1
    · exact last final isLast

theorem changePrev {before' : Option ι} (sameNext : ∀ node ∈ nodes, next' node = next node)
    (samePrev : ∀ node ∈ nodes, nodes.head? ≠ some node → prev' node = prev node)
    (first : ∀ node, nodes.head? = some node → prev' node = before') :
    Linked prev' next' before' nodes after := by
  cases nodes with
  | nil => exact trivial
  | cons node rest =>
    refine ⟨first node rfl, ?_, ?_⟩
    · rw [sameNext node mem_cons_self]
      exact linked.2.1
    · refine congr ?_ ?_ linked.2.2
      · intro other member
        refine samePrev other (.tail _ member) ?_
        intro equal
        rw [head?_cons, Option.some.injEq] at equal
        subst equal
        exact (nodup_cons.mp distinct).1 member
      · exact (forall_mem_cons.mp sameNext).2

end

/-- Replacing a part of a linked list. -/
theorem splice {old middle : List ι} (distinct : (front ++ (old ++ back)).Nodup)
    (linked : Linked prev next none (front ++ (old ++ back)) none)
    (prevFront : ∀ node ∈ front, prev' node = prev node)
    (nextFront : ∀ node ∈ front, front.getLast? ≠ some node → next' node = next node)
    (into : ∀ node, front.getLast? = some node → next' node = (middle ++ back).head?)
    (linkedMiddle : Linked prev' next' front.getLast? middle back.head?)
    (outOf : ∀ node, back.head? = some node → prev' node = (front ++ middle).getLast?)
    (prevBack : ∀ node ∈ back, back.head? ≠ some node → prev' node = prev node)
    (nextBack : ∀ node ∈ back, next' node = next node) :
    Linked prev' next' none (front ++ (middle ++ back)) none := by
  rw [append_iff, append_iff] at linked ⊢
  rw [nodup_append, nodup_append] at distinct
  obtain ⟨distinctFront, ⟨-, distinctBack, -⟩, -⟩ := distinct
  refine ⟨?_, ?_, ?_⟩
  · refine changeNext distinctFront linked.1 prevFront nextFront ?_
    intro node isLast
    rw [into node isLast, or_none]
  · rw [or_none, or_none]
    exact linkedMiddle
  · refine changePrev distinctBack linked.2.2 nextBack prevBack ?_
    intro node isFirst
    rw [outOf node isFirst, getLast?_append, or_none]

end Linked

end Constellation.Lib
