/-!
# Lines of a file

A file is read line by line. A line is ended by a line feed, and a carriage return before it does
not belong to the line; the last line need not be ended. Lines that have neither in them are read
as they are written.
-/

namespace ConformanceHarness.Lib

/-- The lines of some bytes. -/
def lines : List UInt8 → List (List UInt8)
  | [] => []
  | b :: rest =>
    if b = 10 then [] :: lines rest
    else if b = 13 ∧ rest.head? = some 10 then lines rest
    else match lines rest with
      | [] => [[b]]
      | line :: others => (b :: line) :: others

/-- A line that can be told from the next one: no line feed is in it, and no carriage return at its
end. -/
def OneLine (line : List UInt8) : Prop := 10 ∉ line ∧ line.getLast? ≠ some 13

theorem oneLine_tail {b : UInt8} {line : List UInt8} (h : OneLine (b :: line)) : OneLine line := by
  refine ⟨fun hmem => h.1 (List.mem_cons_of_mem b hmem), fun hlast => h.2 ?_⟩
  rw [List.getLast?_cons, hlast]
  rfl

/-- A line, and what comes after it. -/
theorem lines_append {line : List UInt8} (h : OneLine line) (rest : List UInt8) :
    lines (line ++ 10 :: rest) = line :: lines rest := by
  induction line with
  | nil => rw [List.nil_append, lines, if_pos rfl]
  | cons b line ih =>
    have hfeed : b ≠ 10 := fun hb => h.1 (hb ▸ List.mem_cons_self)
    have hreturn : ¬ (b = 13 ∧ (line ++ 10 :: rest).head? = some 10) := by
      rintro ⟨rfl, hhead⟩
      cases line with
      | nil => exact h.2 rfl
      | cons c line => exact h.1 (List.mem_cons_of_mem _ (Option.some.inj hhead ▸ List.mem_cons_self))
    rw [List.cons_append, lines, if_neg hfeed, if_neg hreturn, ih (oneLine_tail h)]

/-- **Lines are read as they are written.** -/
theorem lines_flatMap {written : List (List UInt8)} (h : ∀ line ∈ written, OneLine line) :
    lines (written.flatMap fun line => line ++ [10]) = written := by
  induction written with
  | nil => rfl
  | cons line rest ih =>
    obtain ⟨hline, hrest⟩ := List.forall_mem_cons.mp h
    rw [List.flatMap_cons, List.append_assoc, List.singleton_append, lines_append hline, ih hrest]

end ConformanceHarness.Lib
