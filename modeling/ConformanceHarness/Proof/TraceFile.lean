import ConformanceHarness.Runner.RunScenario

/-!
# Events in the trace file

Every event is emitted, and the trace file holds those that could be written. This module
counts the events of a record on both sides.
-/

namespace ConformanceHarness.Proof

open Lib Future Runner

/-- Every event could be written. -/
def Written (record : Record) : Prop := ∀ x ∈ record, ∀ e, emitted x = some e → written x = some e

section

variable {p : Path} {record record' : Record} {x : Label runner} {e : Emitted}

theorem emitted_of_written (h : written x = some e) : emitted x = some e := by
  rcases x with ⟨⟨p, call⟩, r⟩ | _
  · cases call with
    | emit event =>
        cases r with
        | ok a => exact h
        | error err => exact nomatch h
    | _ => exact nomatch h
  · exact nomatch h

theorem emitted_path (h : emitted x = some e) : e.path = x.place := by
  rcases x with ⟨⟨q, call⟩, r⟩ | _
  · cases call with
    | emit event =>
        obtain rfl := Option.some.inj h
        rfl
    | _ => exact nomatch h
  · exact nomatch h

theorem written_path (h : written x = some e) : e.path = x.place :=
  emitted_path (emitted_of_written h)

/-! ## Parts of a record -/

theorem emissions_cons (x : Label runner) (rest : Record) :
    emissions (x :: rest) = (emitted x).toList ++ emissions rest := by
  rw [emissions, List.filterMap_cons]
  rcases emitted x with _ | e
  · rfl
  · rfl

theorem emissions_append (a b : Record) : emissions (a ++ b) = emissions a ++ emissions b :=
  List.filterMap_append

theorem trace_cons (x : Label runner) :
    trace (x :: record) = (written x).toList ++ trace record := by
  rw [trace, List.filterMap_cons]
  rcases written x with _ | e
  · rfl
  · rfl

theorem trace_append : trace (record ++ record') = trace record ++ trace record' :=
  List.filterMap_append

theorem Written.mono (h : Written record) (hsub : record' ⊆ record) : Written record' :=
  fun x hx => h x (hsub hx)

theorem Written.ok {event : TraceEvent} {r : Except RunError Unit}
    (h : Written record) (hx : .did ⟨p, .emit event⟩ r ∈ record) : r = .ok () := by
  cases r with
  | ok a => rfl
  | error e => exact nomatch h _ hx _ rfl

/-! ## Counting -/

/-- As many events are in the trace as were emitted exactly if all of them were written. -/
theorem trace_countP (record : Record) (P : Emitted → Bool) :
    (trace record).countP P ≤ (emissions record).countP P ∧
      ((trace record).countP P = (emissions record).countP P ↔
        ∀ x ∈ record, ∀ e, emitted x = some e → P e = true → written x = some e) := by
  induction record with
  | nil => exact ⟨Nat.le_refl _, fun _ x hx => (nomatch hx), fun _ => rfl⟩
  | cons x rest ih =>
      obtain ⟨hle, hiff⟩ := ih
      have htail : (∀ y ∈ x :: rest, ∀ e, emitted y = some e → P e = true → written y = some e) ↔
          (∀ e, emitted x = some e → P e = true → written x = some e) ∧
          ∀ y ∈ rest, ∀ e, emitted y = some e → P e = true → written y = some e := by
        simp
      rw [htail, ← hiff, trace_cons, emissions_cons, List.countP_append, List.countP_append]
      rcases hw : written x with _ | e
      · rcases he : emitted x with _ | e
        · exact ⟨by simpa using hle, by simp⟩
        · have hone : (some e).toList.countP P = if P e then 1 else 0 := by
            simp [List.countP_cons]
          rw [hone, Option.toList_none, List.countP_nil]
          by_cases hP : P e = true
          · rw [if_pos hP]
            refine ⟨by omega, fun h => by omega, fun h => ?_⟩
            exact nomatch h.1 e rfl hP
          · rw [if_neg hP]
            exact ⟨by omega, by simp [hP]⟩
      · rw [emitted_of_written hw]
        exact ⟨by omega, by simp⟩

/-- Nothing is lost if as many events are in the trace as were emitted. -/
theorem written_of_length (h : (trace record).length = (emissions record).length) :
    Written record := by
  intro x hx e he
  have hcount : (trace record).countP (fun _ => true) = (emissions record).countP fun _ =>
    true := by
    rw [List.countP_true]
    exact h
  exact (trace_countP record fun _ => true).2.mp hcount x hx e he rfl

end

end ConformanceHarness.Proof
