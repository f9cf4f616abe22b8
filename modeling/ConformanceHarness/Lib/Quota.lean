import Mathlib.Data.List.Basic

/-!
# Asking until there is enough

Somebody asks for one item after another until a number of them have counted. Not every item
counts, and there can be too few that do; then one more is asked for that does not come.
-/

namespace ConformanceHarness.Lib.Quota

variable {α : Type} (counts : α → Bool)

/-- The items that are taken of those on offer, with `n` still to count. -/
def taken : Nat → List α → List α
  | 0, _ => []
  | _, [] => []
  | n + 1, a :: rest => a :: taken (if counts a then n else n + 1) rest

/-- What is on offer is too little. -/
def Short (n : Nat) (offered : List α) : Prop := offered.countP counts < n

instance (n : Nat) (offered : List α) : Decidable (Short counts n offered) :=
  inferInstanceAs (Decidable (_ < _))

/-- How often somebody asks. -/
def asked (n : Nat) (offered : List α) : Nat :=
  (taken counts n offered).length + if Short counts n offered then 1 else 0

variable {counts} {n : Nat} {a : α} {offered more rest : List α}

@[simp] theorem taken_zero : taken counts 0 offered = [] := by cases offered <;> rfl

@[simp] theorem taken_nil : taken counts n [] = [] := by cases n <;> rfl

theorem taken_cons : taken counts (n + 1) (a :: rest) =
    a :: taken counts (if counts a then n else n + 1) rest := rfl

@[simp] theorem not_short_zero : ¬ Short counts 0 offered := Nat.not_lt_zero _

theorem short_nil : Short counts n [] ↔ 0 < n := Iff.rfl

theorem short_cons :
    Short counts (n + 1) (a :: rest) ↔ Short counts (if counts a then n else n + 1) rest := by
  rw [Short, Short, List.countP_cons]
  split <;> omega

theorem taken_begins : taken counts n offered <+: offered := by
  induction offered generalizing n with
  | nil => exact ⟨[], by rw [taken_nil, List.append_nil]⟩
  | cons a rest ih =>
    cases n with
    | zero => rw [taken_zero]; exact List.nil_prefix
    | succ n => rw [taken_cons]; exact (List.prefix_cons_inj a).mpr ih

/-- What is taken counts for as much as is needed, or as there is. -/
theorem countP_taken : (taken counts n offered).countP counts = min n (offered.countP counts) := by
  induction offered generalizing n with
  | nil => rw [taken_nil, List.countP_nil, Nat.min_zero]
  | cons a rest ih =>
    cases n with
    | zero => rw [taken_zero, List.countP_nil, Nat.zero_min]
    | succ n =>
      rw [taken_cons, List.countP_cons, List.countP_cons, ih]
      split <;> omega

/-- If all items count, they are taken up to the number. -/
theorem taken_of_all (h : ∀ a ∈ offered, counts a = true) :
    taken counts n offered = offered.take n := by
  induction offered generalizing n with
  | nil => rw [taken_nil, List.take_nil]
  | cons a rest ih =>
    obtain ⟨ha, hrest⟩ := List.forall_mem_cons.mp h
    cases n with
    | zero => rw [taken_zero, List.take_zero]
    | succ n => rw [taken_cons, if_pos ha, ih hrest, List.take_succ_cons]

/-- With more on offer, what was taken is taken. -/
theorem taken_mono (h : offered <+: more) : taken counts n offered <+: taken counts n more := by
  induction offered generalizing n more with
  | nil => rw [taken_nil]; exact List.nil_prefix
  | cons a rest ih =>
    obtain ⟨suffix, rfl⟩ := h
    cases n with
    | zero => rw [taken_zero]; exact List.nil_prefix
    | succ n =>
      rw [List.cons_append, taken_cons, taken_cons]
      exact (List.prefix_cons_inj a).mpr (ih (List.prefix_append rest suffix))

/-- With enough on offer, more changes nothing. -/
theorem taken_eq_of_not_short (h : offered <+: more) (henough : ¬ Short counts n offered) :
    taken counts n more = taken counts n offered := by
  induction offered generalizing n more with
  | nil =>
    cases n with
    | zero => rw [taken_zero, taken_zero]
    | succ n => exact absurd (short_nil.mpr n.succ_pos) henough
  | cons a rest ih =>
    obtain ⟨suffix, rfl⟩ := h
    cases n with
    | zero => rw [taken_zero, taken_zero]
    | succ n =>
      rw [List.cons_append, taken_cons, taken_cons, ih (List.prefix_append rest suffix)]
      rwa [← short_cons]

theorem Short.of_prefix (hshort : Short counts n more) (h : offered <+: more) :
    Short counts n offered := Nat.lt_of_le_of_lt (h.sublist.countP_le) hshort

/-- Nobody asks less often because there is more on offer. -/
theorem asked_mono (h : offered <+: more) : asked counts n offered ≤ asked counts n more := by
  rw [asked, asked]
  by_cases hshort : Short counts n more
  · rw [if_pos hshort, if_pos (hshort.of_prefix h)]
    exact Nat.add_le_add_right (taken_mono h).length_le 1
  · rw [if_neg hshort, Nat.add_zero]
    by_cases hshort' : Short counts n offered
    · -- of those that make the difference one at least is taken
      rw [if_pos hshort', Nat.succ_le_iff]
      refine Nat.lt_of_le_of_ne (taken_mono h).length_le fun hlength => ?_
      have hsame := (taken_mono h).eq_of_length hlength
      have hcount := congrArg (List.countP counts) hsame
      rw [countP_taken, countP_taken] at hcount
      rw [Short] at hshort hshort'
      omega
    · rw [if_neg hshort', taken_eq_of_not_short h hshort']
      exact Nat.le_refl _

/-! ## What is said -/

/-- What somebody says: one message for each item, and a last one when there are enough. -/
def said {μ : Type} (counts : α → Bool) (ask last : μ) (n : Nat) (offered : List α) : List μ :=
  List.replicate (asked counts n offered) ask ++ if Short counts n offered then [] else [last]

variable {μ : Type} {ask last : μ}

/-- Nothing of it is taken back. -/
theorem said_mono (h : offered <+: more) :
    said counts ask last n offered <+: said counts ask last n more := by
  rw [said, said]
  by_cases hshort : Short counts n offered
  · rw [if_pos hshort, List.append_nil]
    have hasked : List.replicate (asked counts n offered) ask <+:
        List.replicate (asked counts n more) ask := by
      obtain ⟨rest, hrest⟩ := Nat.exists_eq_add_of_le (asked_mono (n := n) h)
      rw [hrest, List.replicate_add]
      exact List.prefix_append _ _
    exact hasked.trans (List.prefix_append _ _)
  · have hshort' : ¬ Short counts n more := fun hmore => hshort (hmore.of_prefix h)
    have hsame : asked counts n offered = asked counts n more := by
      rw [asked, asked, if_neg hshort, if_neg hshort', taken_eq_of_not_short h hshort]
    exact ⟨[], by rw [if_neg hshort, if_neg hshort', hsame, List.append_nil]⟩

/-- If all items count, one message is said for each, and one more. -/
theorem said_of_all (hall : ∀ a ∈ offered, counts a = true) (hle : offered.length ≤ n) :
    said counts ask last n offered =
      List.replicate offered.length ask ++ [if offered.length < n then ask else last] := by
  have htaken : taken counts n offered = offered := by
    rw [taken_of_all hall, List.take_of_length_le hle]
  have hshort : Short counts n offered ↔ offered.length < n := by
    rw [Short, List.countP_eq_length.mpr hall]
  rw [said, asked, htaken]
  by_cases hlt : offered.length < n
  · rw [if_pos (hshort.mpr hlt), if_pos (hshort.mpr hlt), if_pos hlt, List.append_nil,
      List.replicate_succ']
  · rw [if_neg (mt hshort.mp hlt), if_neg (mt hshort.mp hlt), if_neg hlt, Nat.add_zero]

end ConformanceHarness.Lib.Quota
