import Mathlib.Data.List.Basic

/-!
# Where an element splits a list

Two ways of cutting one list, compared: which part an element is in, and what comes
before it. And what is to hold before each occurrence of an element, one element of the
list at a time.
-/

namespace ConformanceHarness.Lib

variable {α : Type} {a b c d : List α} {x y : α}

theorem split_of_getElem {n : Nat} (h : a[n]? = some x) : a = a.take n ++ x :: a.drop (n + 1) := by
  obtain ⟨hlt, rfl⟩ := List.getElem?_eq_some_iff.mp h
  rw [← List.drop_eq_getElem_cons hlt, List.take_append_drop]

/-- An element that is not in the first part is in the second. -/
theorem split_after (h : a ++ x :: b = c ++ d) (hx : x ∉ c) :
    ∃ m, a = c ++ m ∧ d = m ++ x :: b := by
  rcases List.append_eq_append_iff.mp h with ⟨m, rfl, hm⟩ | ⟨m, rfl, hm⟩
  · cases m with
    | nil => exact ⟨[], by rw [List.append_nil, List.append_nil], hm.symm⟩
    | cons z m =>
        have hz : x = z := (List.cons.inj hm).1
        exact absurd (hz ▸ List.mem_append_cons_self) hx
  · exact ⟨m, rfl, hm⟩

/-- An element that is not in the second part is in the first. -/
theorem split_before (h : a ++ x :: b = c ++ d) (hx : x ∉ d) :
    ∃ m, c = a ++ x :: m ∧ b = m ++ d := by
  rcases List.append_eq_append_iff.mp h with ⟨m, rfl, hm⟩ | ⟨m, rfl, hm⟩
  · cases m with
    | nil =>
        rw [List.nil_append] at hm
        exact absurd (hm ▸ List.mem_cons_self) hx
    | cons z m =>
        obtain ⟨rfl, rfl⟩ := List.cons.inj hm
        exact ⟨m, rfl, rfl⟩
  · exact absurd (hm ▸ List.mem_append_cons_self) hx

/-- The only element of a list with some property splits the list in one way. -/
theorem split_unique {Q : α → Prop} (h : a ++ x :: b = c ++ y :: d) (hx : Q x)
    (hc : ∀ z ∈ c, ¬ Q z) (hd : ∀ z ∈ d, ¬ Q z) : a = c ∧ x = y ∧ b = d := by
  obtain ⟨m, rfl, hm⟩ := split_after h fun hmem => hc x hmem hx
  cases m with
  | nil =>
      obtain ⟨rfl, rfl⟩ := List.cons.inj hm
      exact ⟨List.append_nil c, rfl, rfl⟩
  | cons z m =>
      have htail : d = m ++ x :: b := (List.cons.inj hm).2
      exact absurd hx (hd x (htail ▸ List.mem_append_cons_self))

/-- The first occurrence of an element splits the list in one way. -/
theorem split_first (h : a ++ x :: b = c ++ x :: d) (ha : x ∉ a) (hc : x ∉ c) : a = c ∧ b = d := by
  obtain ⟨m, rfl, hm⟩ := split_after h hc
  cases m with
  | nil => exact ⟨List.append_nil c, (List.cons.inj hm).2.symm⟩
  | cons z m =>
      obtain ⟨rfl, -⟩ := List.cons.inj hm
      exact absurd List.mem_append_cons_self ha

/-- What comes before a later element. -/
theorem mem_before (h : a ++ x :: b = c ++ y :: d) (hc : x ∉ c) (hne : x ≠ y) : y ∈ a := by
  obtain ⟨m, rfl, hm⟩ := split_after h hc
  cases m with
  | nil => exact absurd (List.cons.inj hm).1.symm hne
  | cons z m =>
      obtain ⟨rfl, -⟩ := List.cons.inj hm
      exact List.mem_append_right _ List.mem_cons_self

/-! ## What holds before every occurrence -/

/-- `P` holds of what comes before every `x` of the list. -/
def BeforeEach (x : α) (P : List α → Prop) (l : List α) : Prop :=
  ∀ before after, l = before ++ x :: after → P before

theorem beforeEach_nil {P : List α → Prop} : BeforeEach x P [] :=
  fun before _ h => absurd h (by cases before <;> exact fun h => nomatch h)

theorem beforeEach_cons {P : List α → Prop} :
    BeforeEach x P (y :: a) ↔ (y = x → P []) ∧ BeforeEach x (fun before => P (y :: before)) a := by
  constructor
  · refine fun h => ⟨fun heq => h [] a ?_, fun before after heq => h (y :: before) after ?_⟩
    · rw [heq]
      rfl
    · rw [heq]
      rfl
  · rintro ⟨hhead, htail⟩ before after heq
    cases before with
    | nil => exact hhead (List.cons.inj heq).1
    | cons z before =>
      obtain ⟨rfl, hrest⟩ := List.cons.inj heq
      exact htail before after hrest

end ConformanceHarness.Lib
