import Mathlib.Data.List.DropRight

/-!
# Following a chain

A follower is told to append items to its chain, and to go back to a position. It loses the items
after that position, and all of them if the chain does not have it. Somebody who keeps a record of
some items, and never takes one out, has a record of the chain exactly if no going back took away
an item on record.
-/

namespace ConformanceHarness.Lib

variable {α β π : Type}

/-- What a follower is told. -/
inductive Response (α π : Type) where
  | forward (item : α)
  | backward (position : π)

/-- The items it is told to append. -/
def forwards : List (Response α π) → List α
  | [] => []
  | .forward item :: rest => item :: forwards rest
  | .backward _ :: rest => forwards rest

theorem forwards_append (rs rs' : List (Response α π)) :
    forwards (rs ++ rs') = forwards rs ++ forwards rs' := by
  induction rs with
  | nil => rfl
  | cons r rest ih => cases r <;> simp [forwards, ih]

/-- An item is on record wherever the chain and the rest are cut. -/
theorem record_forward (record : α → Option β) (chain : List α) (item : α)
    (rs : List (Response α π)) : chain.filterMap record ++
      (forwards (.forward item :: rs)).filterMap record =
        (chain ++ [item]).filterMap record ++ (forwards rs).filterMap record := by
  rw [← List.filterMap_append, ← List.filterMap_append, List.append_assoc]
  rfl

variable [DecidableEq π] (position : α → π) (record : α → Option β)

/-- The chain up to the last item at `p`. -/
def rollBackTo (p : π) (chain : List α) : List α := chain.rdropWhile fun item => position item ≠ p

/-- What going back to `p` takes away. -/
def takenAway (p : π) (chain : List α) : List α := chain.rtakeWhile fun item => position item ≠ p

/-- The chain after some responses. -/
def follow : List α → List (Response α π) → List α
  | chain, [] => chain
  | chain, .forward item :: rest => follow (chain ++ [item]) rest
  | chain, .backward p :: rest => follow (rollBackTo position p chain) rest

/-- No going back takes away an item on record. -/
def Harmless : List α → List (Response α π) → Prop
  | _, [] => True
  | chain, .forward item :: rest => Harmless (chain ++ [item]) rest
  | chain, .backward p :: rest =>
    (∀ item ∈ takenAway position p chain, record item = none) ∧
      Harmless (rollBackTo position p chain) rest

/-- The record of a chain is that of what is left and of what is taken away. -/
theorem record_rollBackTo (p : π) (chain : List α) : chain.filterMap record =
    (rollBackTo position p chain).filterMap record ++
      (takenAway position p chain).filterMap record := by
  rw [← List.filterMap_append, rollBackTo, takenAway, List.rdropWhile_append_rtakeWhile]

theorem follow_length_le (chain : List α) (rs : List (Response α π)) :
    ((follow position chain rs).filterMap record).length ≤
      (chain.filterMap record).length + ((forwards rs).filterMap record).length := by
  induction rs generalizing chain with
  | nil => simp [follow, forwards]
  | cons r rest ih =>
    cases r with
    | forward item =>
      have hrest := ih (chain ++ [item])
      rw [← List.length_append, ← record_forward, List.length_append] at hrest
      exact hrest
    | backward p =>
      have hrest := ih (rollBackTo position p chain)
      have hsplit := congrArg List.length (record_rollBackTo position record p chain)
      rw [List.length_append] at hsplit
      rw [follow, forwards]
      omega

variable {position record} {chain : List α} {rs : List (Response α π)}

/-- **Without harm, the record of the chain is everything.** -/
theorem follow_of_harmless (h : Harmless position record chain rs) :
    (follow position chain rs).filterMap record =
      chain.filterMap record ++ (forwards rs).filterMap record := by
  induction rs generalizing chain with
  | nil => simp [follow, forwards]
  | cons r rest ih =>
    cases r with
    | forward item =>
      rw [follow, ih h, record_forward]
    | backward p =>
      have hnothing : (takenAway position p chain).filterMap record = [] :=
        List.filterMap_eq_nil_iff.mpr h.1
      rw [follow, ih h.2, forwards, record_rollBackTo position record p chain, hnothing,
        List.append_nil]

/-- **Only without harm is the record of the chain as long as everything.** -/
theorem harmless_of_length (h : ((follow position chain rs).filterMap record).length =
    (chain.filterMap record).length + ((forwards rs).filterMap record).length) :
    Harmless position record chain rs := by
  induction rs generalizing chain with
  | nil => trivial
  | cons r rest ih =>
    cases r with
    | forward item =>
      refine ih ?_
      rw [← List.length_append, ← record_forward, List.length_append]
      exact h
    | backward p =>
      have hrest := follow_length_le position record (rollBackTo position p chain) rest
      have hsplit := record_rollBackTo position record p chain
      rw [follow, forwards, hsplit, List.length_append] at h
      -- nothing that is taken away can be made up for later
      have hnothing : ((takenAway position p chain).filterMap record).length = 0 := by omega
      refine ⟨List.filterMap_eq_nil_iff.mp (List.eq_nil_of_length_eq_zero hnothing), ih ?_⟩
      omega

end ConformanceHarness.Lib
