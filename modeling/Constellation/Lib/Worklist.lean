/-
This file is a library of worklists: containers of pending elements from which one is taken at a
time, and to which the children of the taken element are added. Draining a worklist visits every
element that is reachable from its contents exactly once, in the order of priorities if it is a
priority queue and children have no lesser priority than their parents. An iterator yields a list
if its successive results are the elements of the list.
-/

import Mathlib

namespace Constellation.Lib

open List

/-! ### Loops that can be stopped, and iterators -/

section

variable {σ β : Type*}

def visitWhile (fn : σ → β → σ × Bool) : σ → List β → σ
  | state, [] => state
  | state, element :: rest =>
    if (fn state element).2 then visitWhile fn (fn state element).1 rest else (fn state element).1

theorem visitWhile_append {fn : σ → β → σ × Bool}
    (continues : ∀ state element, (fn state element).2 = true) (state : σ) (first second : List β) :
    visitWhile fn state (first ++ second) = visitWhile fn (visitWhile fn state first) second := by
  induction first generalizing state with
  | nil => rfl
  | cons element rest inductionHypothesis =>
    show (if _ then _ else _) = visitWhile fn (if _ then _ else _) second
    rw [continues, if_pos rfl, if_pos rfl]
    exact inductionHypothesis _

/-- The successive results of an iterator are the elements of a list, after which it ends. -/
inductive Yields (next : σ → Option (β × σ)) : σ → List β → Prop
  | ends {state : σ} : next state = none → Yields next state []
  | result {state later : σ} {element : β} {rest : List β} :
      next state = some (element, later) → Yields next later rest →
        Yields next state (element :: rest)

theorem Yields.of_next_eq {next : σ → Option (β × σ)} {state other : σ} {elements : List β}
    (same : next state = next other) (yields : Yields next other elements) :
    Yields next state elements := by
  cases yields with
  | ends none => exact .ends (same.trans none)
  | result some rest => exact .result (same.trans some) rest

end

/-! ### Loops with their calls on record -/

section

variable {σ β : Type*} (fn : σ → β → σ × Bool)

/-- Also records the elements it is called on, with its answers. -/
def recording (state : σ × List (β × Bool)) (element : β) : (σ × List (β × Bool)) × Bool :=
  (((fn state.1 element).1, state.2 ++ [(element, (fn state.1 element).2)]), (fn state.1 element).2)

def calls (loop : (σ × List (β × Bool) → β → (σ × List (β × Bool)) × Bool) →
    σ × List (β × Bool) → σ × List (β × Bool)) (state : σ) : List (β × Bool) :=
  (loop (recording fn) (state, [])).2

/-- No call follows one that asked to stop. -/
abbrev Stopped (made : List (β × Bool)) : Prop := made.Pairwise fun earlier _ => earlier.2 = true

theorem stopped_cons (call : β × Bool) (more : List (β × Bool)) :
    Stopped (call :: more) ↔ if call.2 then Stopped more else more = [] := by
  rw [Stopped, pairwise_cons]
  split
  case isTrue continues => rw [and_iff_right fun _ _ => continues]
  case isFalse stops =>
    refine ⟨fun both => eq_nil_iff_forall_not_mem.mpr fun later member => ?_, ?_⟩
    · exact stops (both.1 later member)
    · rintro rfl
      exact ⟨nofun, .nil⟩

theorem stopped_append (more most : List (β × Bool)) : Stopped (more ++ most) ↔
    if more.all Prod.snd then Stopped most else Stopped more ∧ most = [] := by
  induction more with
  | nil => simp
  | cons call more inductionHypothesis =>
    rw [cons_append, stopped_cons, stopped_cons, all_cons, inductionHypothesis]
    cases call.2 with
    | true => rfl
    | false => exact append_eq_nil_iff

variable (below : β → β → Prop)

/-- Where the function first asks to stop, all later elements of the list are below. -/
def StopsAbove : σ → List β → Prop
  | _, [] => True
  | state, element :: rest =>
    if (fn state element).2 then StopsAbove (fn state element).1 rest
    else ∀ later ∈ rest, below element later

/-- The calls of a loop are on elements of the list, in its order, leave out only elements below
those at which it is asked to stop, and tell what is left of the condition for elements that come
after. -/
def Walks (elements : List β) (loop : σ × List (β × Bool) → σ × List (β × Bool)) : Prop :=
  ∀ state made, ∃ later more, loop (state, made) = (later, made ++ more) ∧
    (more.map Prod.fst).Sublist elements ∧ (more = [] ↔ elements = []) ∧
    ∀ rest, (∀ upper ∈ elements, ∀ lower ∈ rest, ¬below upper lower) →
      (StopsAbove fn below state (elements ++ rest) ↔
        if more.all Prod.snd then StopsAbove fn below later rest else Stopped more ∧ rest = [])

variable {fn below}

namespace Walks

variable {first second : List β} {loop next : σ × List (β × Bool) → σ × List (β × Bool)}

theorem nil : Walks fn below [] fun state => state :=
  fun state _ => ⟨state, [], by simp, .slnil, by simp, fun _ _ => .rfl⟩

theorem append (walks : Walks fn below first loop) (walksNext : Walks fn below second next)
    (apart : ∀ upper ∈ first, ∀ lower ∈ second, ¬below upper lower) :
    Walks fn below (first ++ second) fun state => next (loop state) := by
  intro state made
  obtain ⟨middle, more, loop_eq, sublist, nil_iff, stops_iff⟩ := walks state made
  obtain ⟨later, most, next_eq, sublistNext, nilNext_iff, stopsNext_iff⟩ :=
    walksNext middle (made ++ more)
  refine ⟨later, more ++ most, ?_, ?_, ?_, fun rest apartRest => ?_⟩
  · dsimp only
    rw [loop_eq, next_eq, append_assoc]
  · rw [map_append]
    exact sublist.append sublistNext
  · rw [append_eq_nil_iff, append_eq_nil_iff, nil_iff, nilNext_iff]
  · rw [forall_mem_append] at apartRest
    have apartAll (upper : β) (member : upper ∈ first) : ∀ lower ∈ second ++ rest, _ :=
      forall_mem_append.mpr ⟨apart upper member, apartRest.1 upper member⟩
    rw [append_assoc, stops_iff (second ++ rest) apartAll, stopsNext_iff rest apartRest.2,
      all_append, stopped_append, append_eq_nil_iff, nilNext_iff]
    cases more.all Prod.snd with
    | true => rfl
    | false => exact and_assoc.symm

/-- A call before a loop over elements below. -/
theorem cons (walks : Walks fn below first loop) {element : β}
    (all : ∀ lower ∈ first, below element lower) :
    Walks fn below (element :: first) fun state =>
      if (recording fn state element).2 then loop (recording fn state element).1
      else (recording fn state element).1 := by
  intro state made
  by_cases continues : (fn state element).2 = true
  · obtain ⟨later, more, loop_eq, sublist, _, stops_iff⟩ :=
      walks (fn state element).1 (made ++ [(element, (fn state element).2)])
    rw [append_assoc] at loop_eq
    refine ⟨later, _ :: more, (if_pos continues).trans loop_eq, sublist.cons_cons _, by simp,
      fun rest apart => ?_⟩
    rw [cons_append, StopsAbove, if_pos continues, stopped_cons, if_pos continues,
      all_cons, continues]
    exact stops_iff rest (forall_mem_cons.mp apart).2
  · refine ⟨_, [_], if_neg continues, singleton_sublist.mpr (.head _), by simp,
      fun rest apart => ?_⟩
    rw [cons_append, StopsAbove, if_neg continues, forall_mem_append, and_iff_right all,
      stopped_cons, if_neg continues, all_cons, Bool.eq_false_iff.mpr continues]
    refine ⟨fun belowAll => ⟨rfl, eq_nil_iff_forall_not_mem.mpr fun lower member => ?_⟩, ?_⟩
    · exact apart element (.head _) lower member (belowAll lower member)
    · rintro ⟨_, rfl⟩
      exact forall_mem_nil _

theorem calls_iff {loop} (walks : Walks fn below first (loop (recording fn))) (state : σ) :
    ((calls fn loop state).map Prod.fst).Sublist first ∧
      (Stopped (calls fn loop state) ↔ StopsAbove fn below state first) := by
  obtain ⟨later, more, loop_eq, sublist, _, stops_iff⟩ := walks state []
  have ends := stops_iff [] (by simp)
  have stopped := stopped_append more []
  rw [append_nil] at ends stopped
  rw [calls, loop_eq, ends]
  exact ⟨sublist, stopped.trans (by simp [StopsAbove])⟩

/-- A loop that ends when it is asked to leaves out all elements after that. -/
theorem visitWhile (elements : List β) :
    Walks fn (fun _ _ => True) elements fun state => visitWhile (recording fn) state elements := by
  induction elements with
  | nil => exact nil
  | cons element rest inductionHypothesis => exact inductionHypothesis.cons fun _ _ => trivial

end Walks

theorem stopsAbove_true (state : σ) (elements : List β) :
    StopsAbove fn (fun _ _ => True) state elements := by
  induction elements generalizing state with
  | nil => trivial
  | cons element rest inductionHypothesis =>
    rw [StopsAbove]
    split
    · exact inductionHypothesis _
    · exact fun _ _ => trivial

end

/-! ### Worklists -/

structure Worklist (α : Type) where
  Queue : Type
  empty : Queue
  push : Queue → α → Queue
  pop : Queue → Option (α × Queue)
  contents : Queue → List α
  contents_empty : contents empty = []
  contents_push : ∀ queue element, (contents (push queue element)).Perm (element :: contents queue)
  pop_none : ∀ queue, pop queue = none → contents queue = []
  pop_some : ∀ queue element rest, pop queue = some (element, rest) →
    (contents queue).Perm (element :: contents rest)

namespace Worklist

variable {α : Type}

def stack (α : Type) : Worklist α where
  Queue := List α
  empty := []
  push queue element := element :: queue
  pop
    | [] => none
    | element :: rest => some (element, rest)
  contents queue := queue
  contents_empty := rfl
  contents_push _ _ := .refl _
  pop_none queue none := by
    cases queue with
    | nil => rfl
    | cons element rest => cases none
  pop_some queue element rest some := by
    cases queue with
    | nil => cases some
    | cons first later =>
      cases some
      exact .refl _

/-- The element that is taken has the least priority. -/
def TakesLeast (worklist : Worklist α) (priority : α → Nat) : Prop :=
  ∀ queue element rest, worklist.pop queue = some (element, rest) →
    ∀ other ∈ worklist.contents rest, priority element ≤ priority other

def NoGreater (priority : α → Nat) (first second : α) : Prop := priority first ≤ priority second
  deriving Decidable

instance (rank : α → Nat) : IsTrans α (NoGreater rank) := ⟨fun _ _ _ => Nat.le_trans⟩

instance (rank : α → Nat) : Std.Total (NoGreater rank) := ⟨fun _ _ => Nat.le_total _ _⟩

def sorted (priority : α → Nat) : Worklist α where
  Queue := {elements : List α // elements.Pairwise (NoGreater priority)}
  empty := ⟨[], .nil⟩
  push queue element :=
    ⟨queue.val.orderedInsert (NoGreater priority) element,
      queue.property.orderedInsert element queue.val⟩
  pop queue :=
    match queue with
    | ⟨[], _⟩ => none
    | ⟨element :: rest, sorted⟩ => some (element, ⟨rest, sorted.of_cons⟩)
  contents queue := queue.val
  contents_empty := rfl
  contents_push queue element := perm_orderedInsert _ _ _
  pop_none queue none := by
    obtain ⟨elements, sorted⟩ := queue
    cases elements with
    | nil => rfl
    | cons element rest => cases none
  pop_some queue element rest some := by
    obtain ⟨elements, sorted⟩ := queue
    cases elements with
    | nil => cases some
    | cons first later =>
      cases some
      exact .refl _

theorem sorted_takesLeast (priority : α → Nat) : (sorted priority).TakesLeast priority := by
  rintro ⟨elements, sorted⟩ element rest some other member
  cases elements with
  | nil => cases some
  | cons first later =>
    cases some
    exact rel_of_pairwise_cons sorted member

/-! ### Draining a worklist -/

section

variable (worklist : Worklist α) (children : α → List α)

def advance (queue : worklist.Queue) : Option (α × worklist.Queue) :=
  match worklist.pop queue with
  | none => none
  | some (element, rest) => some (element, (children element).foldl worklist.push rest)

theorem contents_foldl_push (queue : worklist.Queue) (elements : List α) :
    (worklist.contents (elements.foldl worklist.push queue)).Perm
      (elements ++ worklist.contents queue) := by
  induction elements generalizing queue with
  | nil => exact .refl _
  | cons element rest inductionHypothesis =>
    refine (inductionHypothesis (worklist.push queue element)).trans ?_
    exact ((worklist.contents_push queue element).append_left rest).trans perm_middle

variable {queue later : worklist.Queue} {element : α}

/-- An element that was taken is replaced by its children. -/
theorem contents_advance (taken : worklist.advance children queue = some (element, later)) :
    ∃ rest, (worklist.contents queue).Perm (element :: rest) ∧
      (worklist.contents later).Perm (children element ++ rest) ∧
      ∃ remaining, worklist.pop queue = some (element, remaining) ∧
        worklist.contents remaining = rest := by
  unfold advance at taken
  split at taken
  · cases taken
  case h_2 first remaining popped =>
    cases taken
    exact ⟨_, worklist.pop_some _ _ _ popped, worklist.contents_foldl_push _ _, remaining, popped,
      rfl⟩

theorem contents_of_advance_none (none : worklist.advance children queue = none) :
    worklist.contents queue = [] := by
  unfold advance at none
  split at none
  case h_1 popped => exact worklist.pop_none _ popped
  · cases none

def totalSize (size : α → Nat) (queue : worklist.Queue) : Nat :=
  ((worklist.contents queue).map size).sum

variable {children} {size : α → Nat}

theorem totalSize_advance (smaller : ∀ element, ((children element).map size).sum < size element)
    (taken : worklist.advance children queue = some (element, later)) :
    worklist.totalSize size later < worklist.totalSize size queue := by
  obtain ⟨rest, before, after, _⟩ := worklist.contents_advance children taken
  unfold totalSize
  rw [(before.map size).sum_eq, (after.map size).sum_eq, map_append, sum_append, map_cons, sum_cons]
  exact Nat.add_lt_add_right (smaller element) _

def drain (smaller : ∀ element, ((children element).map size).sum < size element)
    (queue : worklist.Queue) : List α :=
  match _taken : worklist.advance children queue with
  | none => []
  | some (element, later) => element :: drain smaller later
termination_by worklist.totalSize size queue
decreasing_by exact worklist.totalSize_advance smaller _taken

variable (smaller : ∀ element, ((children element).map size).sum < size element)

/-- A property that children inherit is kept when an element is replaced by its children. -/
theorem inherited_advance {good : α → Prop}
    (inherited : ∀ element, good element → ∀ child ∈ children element, good child)
    {before after rest : List α} (start : ∀ other ∈ before, good other)
    (taken : before.Perm (element :: rest)) (added : after.Perm (children element ++ rest)) :
    ∀ other ∈ after, good other := by
  intro other member
  rcases mem_append.mp (added.mem_iff.mp member) with child | waiting
  · exact inherited element (start element (taken.mem_iff.mpr (.head _))) other child
  · exact start other (taken.mem_iff.mpr (.tail _ waiting))

/-- Every element that is reachable from the contents is visited once. What is reachable from an
element is given by a function that lists it with what is reachable from its children. It is enough
that it does so for elements with a property that children inherit. -/
theorem drain_perm (good : α → Prop)
    (inherited : ∀ element, good element → ∀ child ∈ children element, good child)
    {reachable : α → List α}
    (unfolds : ∀ element, good element →
      (reachable element).Perm (element :: (children element).flatMap reachable))
    (queue : worklist.Queue) (start : ∀ element ∈ worklist.contents queue, good element) :
    (worklist.drain smaller queue).Perm ((worklist.contents queue).flatMap reachable) := by
  fun_induction worklist.drain smaller queue with
  | case1 queue none =>
    rw [worklist.contents_of_advance_none children none]
    exact .refl _
  | case2 queue element later taken inductionHypothesis =>
    obtain ⟨rest, before, after, _⟩ := worklist.contents_advance children taken
    have goodElement : good element := start element (before.mem_iff.mpr (.head _))
    have goodLater := inherited_advance inherited start before after
    refine ((inductionHypothesis goodLater).cons element).trans ?_
    refine List.Perm.trans ?_ (before.flatMap_right reachable).symm
    refine ((after.flatMap_right reachable).cons element).trans ?_
    rw [flatMap_append, flatMap_cons, ← cons_append]
    exact (unfolds element goodElement).symm.append_right _

/-- If the element of least priority is always taken, and children have no lesser priority than
their parents, the elements are visited in the order of their priorities. It is enough that this
holds of elements with a property that children inherit. -/
theorem drain_pairwise {priority : α → Nat} (least : worklist.TakesLeast priority)
    (good : α → Prop) (inherited : ∀ element, good element → ∀ child ∈ children element, good child)
    (increasing : ∀ element, good element → ∀ child ∈ children element,
      priority element ≤ priority child)
    (queue : worklist.Queue) (start : ∀ element ∈ worklist.contents queue, good element) :
    (worklist.drain smaller queue).Pairwise (NoGreater priority) ∧
      ∀ bound, (∀ element ∈ worklist.contents queue, bound ≤ priority element) →
        ∀ element ∈ worklist.drain smaller queue, bound ≤ priority element := by
  fun_induction worklist.drain smaller queue with
  | case1 queue none => exact ⟨.nil, fun _ _ element member => nomatch member⟩
  | case2 queue element later taken inductionHypothesis =>
    obtain ⟨rest, before, after, remaining, popped, same⟩ :=
      worklist.contents_advance children taken
    have goodElement : good element := start element (before.mem_iff.mpr (.head _))
    have goodLater := inherited_advance inherited start before after
    obtain ⟨ordered, bounded⟩ := inductionHypothesis goodLater
    have laterBound (bound : Nat) (below : bound ≤ priority element)
        (restBound : ∀ other ∈ rest, bound ≤ priority other) :
        ∀ other ∈ worklist.drain smaller later, bound ≤ priority other := by
      refine bounded bound fun other member => ?_
      rcases mem_append.mp (after.mem_iff.mp member) with child | waiting
      · exact below.trans (increasing element goodElement other child)
      · exact restBound other waiting
    refine ⟨pairwise_cons.mpr ⟨?_, ordered⟩, fun bound below other member => ?_⟩
    · exact laterBound _ le_rfl (same ▸ least queue element remaining popped)
    · have belowElement : bound ≤ priority element :=
        below element (before.mem_iff.mpr (.head _))
      rcases mem_cons.mp member with rfl | inLater
      · exact belowElement
      · exact laterBound bound belowElement
          (fun waiting inRest => below waiting (before.mem_iff.mpr (.tail _ inRest)))
          other inLater

/-! ### Iterating over a worklist -/

variable {β : Type} (keep : α → Option β)

def next (smaller : ∀ element, ((children element).map size).sum < size element)
    (keep : α → Option β) (queue : worklist.Queue) : Option (β × worklist.Queue) :=
  match _taken : worklist.advance children queue with
  | none => none
  | some (element, later) =>
    match keep element with
    | none => next smaller keep later
    | some result => some (result, later)
termination_by worklist.totalSize size queue
decreasing_by exact worklist.totalSize_advance smaller _taken

def forEach {σ : Type} (smaller : ∀ element, ((children element).map size).sum < size element)
    (keep : α → Option β) (fn : σ → β → σ × Bool) (state : σ) (queue : worklist.Queue) : σ :=
  match _taken : worklist.advance children queue with
  | none => state
  | some (element, later) =>
    match keep element with
    | none => forEach smaller keep fn state later
    | some result =>
      if (fn state result).2 then forEach smaller keep fn (fn state result).1 later
      else (fn state result).1
termination_by worklist.totalSize size queue
decreasing_by all_goals exact worklist.totalSize_advance smaller _taken

theorem yields_next (queue : worklist.Queue) :
    Yields (worklist.next smaller keep) queue ((worklist.drain smaller queue).filterMap keep) := by
  fun_induction worklist.drain smaller queue with
  | case1 queue none =>
    refine .ends ?_
    rw [next]
    split
    · rfl
    case h_2 taken => cases none.symm.trans taken
  | case2 queue element later taken inductionHypothesis =>
    have unfolded : worklist.next smaller keep queue =
        match keep element with
        | none => worklist.next smaller keep later
        | some result => some (result, later) := by
      rw [next]
      split
      case h_1 none => cases taken.symm.trans none
      case h_2 first rest again =>
        cases taken.symm.trans again
        rfl
    cases kept : keep element with
    | none =>
      rw [filterMap_cons_none kept]
      rw [kept] at unfolded
      exact inductionHypothesis.of_next_eq unfolded
    | some result =>
      rw [filterMap_cons_some kept]
      rw [kept] at unfolded
      exact .result unfolded inductionHypothesis

theorem forEach_eq_visitWhile {σ : Type} (fn : σ → β → σ × Bool) (state : σ)
    (queue : worklist.Queue) :
    worklist.forEach smaller keep fn state queue =
      visitWhile fn state ((worklist.drain smaller queue).filterMap keep) := by
  fun_induction worklist.drain smaller queue generalizing state with
  | case1 queue none =>
    rw [forEach]
    split
    · rfl
    case h_2 taken => cases none.symm.trans taken
  | case2 queue element later taken inductionHypothesis =>
    rw [forEach]
    split
    case h_1 none => cases taken.symm.trans none
    case h_2 first rest again =>
      cases taken.symm.trans again
      cases kept : keep element with
      | none =>
        rw [filterMap_cons_none kept]
        exact inductionHypothesis state
      | some result =>
        rw [filterMap_cons_some kept]
        show (if _ then _ else _) = if _ then _ else _
        rw [inductionHypothesis]

end

end Worklist

end Constellation.Lib
