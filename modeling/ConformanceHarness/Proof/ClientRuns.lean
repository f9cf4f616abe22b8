import ConformanceHarness.Miniprotocols.Net

/-!
# What a part of a client does

The events it writes, the messages it sends and what becomes of its local variables, each put
together from what its own parts do.
-/

namespace ConformanceHarness.Proof

open ConformanceHarness.Lib (Prog)
open Session

variable {τ ρ μ κ : Type}

/-- From `s` to `s'` these events are written and these messages sent, and the local variables
change by `f`. -/
structure Goes (s s' : Session τ ρ μ κ) (events : List TraceEvent) (messages : List μ)
    (f : ρ → ρ) : Prop where
  events : s'.trace.map Stamped.event = s.trace.map Stamped.event ++ events
  messages : s'.sent = s.sent ++ messages.map Wire.message
  locals : s'.locals = f s.locals

namespace Goes

variable {a b c s : Session τ ρ μ κ} {events events' : List TraceEvent}
  {messages messages' : List μ} {f g : ρ → ρ}

theorem refl (s : Session τ ρ μ κ) : Goes s s [] [] id :=
  ⟨(List.append_nil _).symm, (List.append_nil _).symm, rfl⟩

theorem trans (h : Goes a b events messages f) (h' : Goes b c events' messages' g) :
    Goes a c (events ++ events') (messages ++ messages') (g ∘ f) where
  events := by rw [h'.events, h.events, List.append_assoc]
  messages := by rw [h'.messages, h.messages, List.map_append, List.append_assoc]
  locals := by rw [h'.locals, h.locals, Function.comp_apply]

theorem emit (event : TraceEvent) (s : Session τ ρ μ κ) :
    Goes s ((Session.emit event).run s).2 [event] [] id :=
  ⟨List.map_append, (List.append_nil _).symm, rfl⟩

theorem update (f : ρ → ρ) (s : Session τ ρ μ κ) :
    Goes s ((Session.update f).run s).2 [] [] f :=
  ⟨(List.append_nil _).symm, (List.append_nil _).symm, rfl⟩

theorem sendMessage (m : μ) (s : Session τ ρ μ κ) :
    Goes s ((Session.sendMessage m).run s).2 [] [m] id :=
  ⟨(List.append_nil _).symm, rfl, rfl⟩

/-- The local variables, once they are known. -/
theorem locals_eq {l : ρ} (h : Goes a b events messages f) (hl : f a.locals = l) :
    Goes a b events messages (fun _ => l) := ⟨h.events, h.messages, h.locals.trans hl⟩

/-- What is done from the start of a session is all there is. -/
theorem fromStart {state : τ} {locals : ρ} {s : Session τ ρ μ κ}
    (h : Goes (Session.start state locals) s events messages f) :
    s.trace.map Stamped.event = events ∧ s.sent = messages.map Wire.message ∧
      s.locals = f locals :=
  ⟨h.events, h.messages, h.locals⟩

end Goes

end ConformanceHarness.Proof
