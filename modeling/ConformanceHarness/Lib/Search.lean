import Mathlib.Data.List.Forall2

/-!
# Searching a list with a test that can fail

The search stops at the first element that passes the test, or at one whose test fails,
whichever comes first. It is said once where it stops, and how it ends there.

Where each element has a result, the list has a list of results.
-/

namespace ConformanceHarness.Lib

variable {α ε : Type} {test : α → Except ε Bool} {l : List α} {a : α} {k : Nat}

theorem mem_take_of_lt {n : Nat} (h : l[k]? = some a) (hlt : k < n) : a ∈ l.take n :=
  List.mem_of_getElem? ((List.getElem?_take_of_lt hlt).trans h)

/-- The place of the first element that passes the test. -/
def search (test : α → Except ε Bool) : List α → Except ε (Option Nat)
  | [] => .ok none
  | a :: rest =>
    match test a with
    | .error e => .error e
    | .ok true => .ok (some 0)
    | .ok false => (search test rest).map (Option.map (· + 1))

/-- The search comes to `a`, at place `k`: nothing before it passes or fails the test. -/
structure SearchReaches (test : α → Except ε Bool) (l : List α) (k : Nat) (a : α) : Prop where
  here : l[k]? = some a
  before : ∀ b ∈ l.take k, test b = .ok false

theorem SearchReaches.cons {b : α} (h : SearchReaches test l k a) (hb : test b = .ok false) :
    SearchReaches test (b :: l) (k + 1) a where
  here := h.here
  before := by
    intro c hc
    rw [List.take_succ_cons] at hc
    rcases List.mem_cons.mp hc with rfl | hc
    · exact hb
    · exact h.before c hc

/-- **How a search ends**: nothing passes the test, or it stops where the test passes or fails. -/
theorem search_cases (test : α → Except ε Bool) (l : List α) :
    (search test l = .ok none ∧ ∀ a ∈ l, test a = .ok false) ∨
    (∃ k a, search test l = .ok (some k) ∧ SearchReaches test l k a ∧ test a = .ok true) ∨
    ∃ k a e, search test l = .error e ∧ SearchReaches test l k a ∧ test a = .error e := by
  induction l with
  | nil => exact .inl ⟨rfl, fun a ha => absurd ha List.not_mem_nil⟩
  | cons a rest ih =>
    have hhere : SearchReaches test (a :: rest) 0 a :=
      ⟨rfl, fun b hb => absurd hb List.not_mem_nil⟩
    rcases ha : test a with e | _ | _
    · exact .inr (.inr ⟨0, a, e, by rw [search, ha], hhere, ha⟩)
    · have hskip : search test (a :: rest) = (search test rest).map (Option.map (· + 1)) := by
        rw [search, ha]
      rcases ih with ⟨hnone, hall⟩ | ⟨k, b, hsome, hreach, hb⟩ | ⟨k, b, e, herror, hreach, hb⟩
      · refine .inl ⟨by rw [hskip, hnone]; rfl, fun b hb => ?_⟩
        rcases List.mem_cons.mp hb with rfl | hb
        · exact ha
        · exact hall b hb
      · exact .inr (.inl ⟨k + 1, b, by rw [hskip, hsome]; rfl, hreach.cons ha, hb⟩)
      · exact .inr (.inr ⟨k + 1, b, e, by rw [hskip, herror]; rfl, hreach.cons ha, hb⟩)
    · exact .inr (.inl ⟨0, a, by rw [search, ha], hhere, ha⟩)

/-- A loop that counts as it goes is the search. -/
theorem loop_eq_search {β : Type} (loop : Nat → List α → Except ε (Option β)) (place : Nat → β)
    (hnil : ∀ n, loop n [] = .ok none)
    (hcons : ∀ n a rest, loop n (a :: rest) = match test a with
      | .error e => .error e
      | .ok true => .ok (some (place n))
      | .ok false => loop (n + 1) rest) (l : List α) :
    ∀ n, loop n l = (search test l).map (Option.map fun k => place (n + k)) := by
  induction l with
  | nil => exact hnil
  | cons a rest ih =>
    intro n
    rw [hcons, search]
    rcases test a with e | _ | _
    · rfl
    · dsimp only
      rw [ih]
      rcases search test rest with e | _ | k
      · rfl
      · rfl
      · show Except.ok (some (place (n + 1 + k))) = Except.ok (some (place (n + (k + 1))))
        rw [Nat.add_assoc, Nat.add_comm 1 k]
    · rfl

theorem exists_forall₂ {β : Type} {R : α → β → Prop} (h : ∀ a ∈ l, ∃ b, R a b) :
    ∃ bs, List.Forall₂ R l bs := by
  induction l with
  | nil => exact ⟨[], .nil⟩
  | cons a rest ih =>
    obtain ⟨b, hb⟩ := h a List.mem_cons_self
    obtain ⟨bs, hbs⟩ := ih fun c hc => h c (List.mem_cons_of_mem a hc)
    exact ⟨b :: bs, .cons hb hbs⟩

end ConformanceHarness.Lib
