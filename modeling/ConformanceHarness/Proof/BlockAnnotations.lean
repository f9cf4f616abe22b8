import ConformanceHarness.Lib.Path
import ConformanceHarness.Proof.SessionRules

/-!
# State annotations of a Block-Fetch trace

Every wire event is stamped with the state the session tracked when the message
crossed the channel and when the event was written. The annotation of an event is
faithful if it names these two states.

`NoBlocks` and `StartBatch` are annotated with the tracked state, `Block` and
`BatchDone` with the literal `"Streaming"`, and the event of a `raw_bytes` send with
nothing at all. So the trace is faithful exactly if the session performs no
`raw_bytes`, and no `block` or `batch_done` from another state than `Streaming`.
-/

namespace ConformanceHarness

open ConformanceHarness.Lib (Prog Path)
open ConformanceHarness.Lib.Prog (Within)
open Session

namespace Proof

namespace BlockAnnotations

open BlockFetch

/-- An event names the states tracked before and after its message. -/
def Annotated (e : Stamped ServerBfState) : Prop :=
  e.event.stateBefore = some e.before.asStr ∧ e.event.stateAfter = some e.after.asStr

instance (e : Stamped ServerBfState) : Decidable (Annotated e) :=
  inferInstanceAs (Decidable (_ ∧ _))

/-- **Faithful annotations.** Every wire event names its two states, and so each one
begins where the one before it ended. -/
structure Faithful (trace : List (Stamped ServerBfState)) : Prop where
  annotated : ∀ e ∈ wires trace, Annotated e
  seamless : (wires trace).IsChain fun e e' => e.event.stateAfter = e'.event.stateBefore

/-- The steps whose events are annotated as they should. -/
def RightlyAnnotated : SessionStep ServerBfState BlockFetchCounters → Prop
  | .sent state _ (.block _) => state = .streaming
  | .sent state _ .batchDone => state = .streaming
  | .sent _ _ (.rawBytes _) => False
  | _ => True

/-- A wire event as a step of the tracked state. -/
def StampStep (a : ServerBfState) (e : Stamped ServerBfState) (b : ServerBfState) : Prop :=
  e.before = a ∧ e.after = b

/-- A path of well annotated events is seamless. -/
theorem faithful_of_path {trace : List (Stamped ServerBfState)} {a b : ServerBfState}
    (h : Path StampStep a (wires trace) b) (hann : ∀ e ∈ wires trace, Annotated e) :
    Faithful trace := by
  refine ⟨hann, ?_⟩
  have hpath : Path (fun a e b => StampStep a e b ∧ Annotated e) a (wires trace) b :=
    h.imp_of_mem fun a e b hmem hstep => ⟨hstep, hann e hmem⟩
  refine hpath.isChain ?_
  rintro a e b e' c ⟨⟨-, hafter⟩, -, hafter'⟩ ⟨⟨hbefore, -⟩, hbefore', -⟩
  rw [hafter', hbefore', hafter, hbefore]

theorem asStr_eq_streaming (state : ServerBfState) :
    "Streaming" = state.asStr ↔ state = .streaming := by
  cases state <;> decide

/-! ## What a part of a send writes -/

/-- From `s` to `s'` events are written that trace the tracked state, and they are
well annotated if and only if `right`. -/
def Writes (right : Prop) (s s' : BlockFetchSession) : Prop :=
  ∃ events, s'.trace = s.trace ++ events ∧ s'.performed = s.performed ∧
    Path StampStep s.state (wires events) s'.state ∧ ((∀ e ∈ wires events, Annotated e) ↔ right)

/-- One wire event, stamped with the state before and after. -/
theorem writes_one {s : BlockFetchSession} (s' : BlockFetchSession) (event : TraceEvent)
    {right : Prop} (hwire : event.isWire = true)
    (htrace : s'.trace = s.trace ++ [⟨event, s.state, s'.state⟩])
    (hperf : s'.performed = s.performed)
    (hright : Annotated ⟨event, s.state, s'.state⟩ ↔ right) : Writes right s s' := by
  refine ⟨_, htrace, hperf, ?_, ?_⟩
  · rw [wires_wire hwire]
    exact Path.single ⟨rfl, rfl⟩
  · rw [wires_wire hwire]
    simpa using hright

theorem Writes.trans {p q : Prop} {a b c : BlockFetchSession} (h : Writes p a b)
    (h' : Writes q b c) : Writes (p ∧ q) a c := by
  obtain ⟨events, htrace, hperf, hpath, hright⟩ := h
  obtain ⟨events', htrace', hperf', hpath', hright'⟩ := h'
  refine ⟨events ++ events', ?_, hperf'.trans hperf, ?_, ?_⟩
  · rw [htrace', htrace, List.append_assoc]
  · rw [wires_append]
    exact hpath.append hpath'
  · rw [wires_append, List.forall_mem_append, hright, hright']

theorem sendNoBlocks_writes (s : BlockFetchSession) :
    Writes True s ((sendNoBlocks s.state).run s).2 := by
  refine writes_one ((sendNoBlocks s.state).run s).2 _ rfl rfl rfl ?_
  exact iff_true_intro ⟨rfl, rfl⟩

theorem sendStartBatch_writes (s : BlockFetchSession) :
    Writes True s ((sendStartBatch s.state).run s).2 := by
  refine writes_one ((sendStartBatch s.state).run s).2 _ rfl rfl rfl ?_
  exact iff_true_intro ⟨rfl, rfl⟩

/-- A block leaves the tracked state alone, and says it is `Streaming`. -/
theorem sendBlock_writes (source : BlockSource) (body : List UInt8) (cborLen : Nat)
    (s : BlockFetchSession) :
    Writes (s.state = .streaming) s ((sendBlock source body cborLen).run s).2 := by
  refine writes_one ((sendBlock source body cborLen).run s).2 _ rfl rfl rfl ?_
  show (some "Streaming" = some s.state.asStr ∧ some "Streaming" = some s.state.asStr) ↔ _
  rw [and_self, Option.some_inj, asStr_eq_streaming]

theorem sendBatchDone_writes (blocksInBatch : UInt64) (s : BlockFetchSession) :
    Writes (s.state = .streaming) s ((sendBatchDone blocksInBatch).run s).2 := by
  refine writes_one ((sendBatchDone blocksInBatch).run s).2 _ rfl rfl rfl ?_
  show (some "Streaming" = some s.state.asStr ∧ some "Idle" = some "Idle") ↔ _
  rw [Option.some_inj, asStr_eq_streaming, and_iff_left rfl]

/-- The blocks of a batch, sent while streaming. -/
theorem sendBlocks_writes (entries : List (BlockSource × List UInt8)) (s : BlockFetchSession)
    (hstate : s.state = .streaming) :
    ∃ s', (sendBlocks entries).run s = (.ok (), s') ∧ s'.state = .streaming ∧ Writes True s s' := by
  induction entries generalizing s with
  | nil =>
    refine ⟨s, rfl, hstate, [], by simp, rfl, .nil _, ?_⟩
    simp [wires]
  | cons entry rest ih =>
    have hfirst := sendBlock_writes entry.1 entry.2 entry.2.length s
    rw [eq_true hstate] at hfirst
    obtain ⟨s', hrun, hstate', hrest⟩ :=
      ih ((sendBlock entry.1 entry.2 entry.2.length).run s).2 hstate
    exact ⟨s', hrun, hstate', by simpa using hfirst.trans hrest⟩

/-- A whole batch, or `NoBlocks`, from any state. -/
theorem sendStream_writes (entries : Option (List (BlockSource × List UInt8)))
    (s : BlockFetchSession) : Writes True s ((sendStream s.state entries).run s).2 := by
  rcases entries with _ | _ | ⟨entry, rest⟩
  · exact sendNoBlocks_writes s
  · exact sendNoBlocks_writes s
  · have hstart := sendStartBatch_writes s
    have hrunStart : (sendStartBatch s.state).run s =
      (.ok (), ((sendStartBatch s.state).run s).2) := rfl
    obtain ⟨s', hrun, hstate, hblocks⟩ :=
      sendBlocks_writes (entry :: rest) ((sendStartBatch s.state).run s).2 rfl
    have hdone := sendBatchDone_writes (UInt64.ofNat (entry :: rest).length) s'
    rw [eq_true hstate] at hdone
    have hall := (hstart.trans hblocks).trans hdone
    rw [sendStream, Prog.run_bind_ok hrunStart, Prog.run_bind_ok hrun]
    · simpa using hall
    · intro h
      cases h

/-! ## What a session writes -/

/-- From `s` to `s'` events are written that trace the tracked state, and they are well
annotated if and only if the steps performed are of the right kind. -/
def Extends (s s' : BlockFetchSession) : Prop :=
  ∃ events steps, s'.trace = s.trace ++ events ∧ s'.performed = s.performed ++ steps ∧
    Path StampStep s.state (wires events) s'.state ∧
    ((∀ e ∈ wires events, Annotated e) ↔ ∀ step ∈ steps, RightlyAnnotated step)

/-- Nothing was written, and nothing performed. -/
theorem extends_of_same {s s' : BlockFetchSession} (htrace : s'.trace = s.trace)
    (hperf : s'.performed = s.performed) (hstate : s'.state = s.state) : Extends s s' := by
  refine ⟨[], [], by simp [htrace], by simp [hperf], ?_, ?_⟩
  · rw [hstate]
    exact .nil _
  · simp [wires]

theorem extends_trans {a b c : BlockFetchSession} (h : Extends a b) (h' : Extends b c) :
    Extends a c := by
  obtain ⟨events, steps, htrace, hperf, hpath, hright⟩ := h
  obtain ⟨events', steps', htrace', hperf', hpath', hright'⟩ := h'
  refine ⟨events ++ events', steps ++ steps', ?_, ?_, ?_, ?_⟩
  · rw [htrace', htrace, List.append_assoc]
  · rw [hperf', hperf, List.append_assoc]
  · rw [wires_append]
    exact hpath.append hpath'
  · rw [wires_append, List.forall_mem_append, hright, hright', List.forall_mem_append]

/-- A send that is noted, and then performed. -/
theorem extends_of_writes {s s' : BlockFetchSession} {send : ScriptSend} {right : Prop}
    (h : Writes right ((noteSend send : BlockFetchServer Unit).run s).2 s')
    (hright : right ↔ RightlyAnnotated (.sent s.state s.locals send)) : Extends s s' := by
  obtain ⟨events, htrace, hperf, hpath, hann⟩ := h
  refine ⟨events, [.sent s.state s.locals send], htrace, hperf, hpath, ?_⟩
  rw [hann, hright]
  simp

theorem keeps_extends : Keeps Extends where
  refl _ := extends_of_same rfl rfl rfl
  trans _ _ _ := extends_trans
  internal {event} h s := by
    refine ⟨[⟨event, s.ioState, s.state⟩], [], rfl, (List.append_nil _).symm, ?_, ?_⟩
    · rw [wires_internal h]
      exact .nil _
    · rw [wires_internal h]
      simp

theorem receive_extends (request : BlockFetchRequest) : Within Extends (receive request) := by
  intro s
  have hwire : (receiveEvent request s.state (stateOnRequest request)).isWire = true := by
    cases request <;> rfl
  refine ⟨[⟨receiveEvent request s.state (stateOnRequest request), s.state,
    stateOnRequest request⟩], [.received s.state], rfl, rfl, ?_, ?_⟩
  · rw [wires_wire hwire]
    exact Path.single ⟨rfl, rfl⟩
  · rw [wires_wire hwire]
    have hann : Annotated ⟨receiveEvent request s.state (stateOnRequest request), s.state,
        stateOnRequest request⟩ := ⟨rfl, rfl⟩
    simp [hann, RightlyAnnotated]

/-- The send whose event has no annotation. -/
theorem rawBytes_extends (bytes : List UInt8) (request : BlockFetchRequest)
    (fixture : Option BlockFixtureChain) (s : BlockFetchSession) :
    Extends s ((executeSingleSend (.rawBytes bytes) request fixture s.state).run s).2 := by
  have hright : False ↔ RightlyAnnotated (.sent s.state s.locals (.rawBytes bytes)) := Iff.rfl
  refine extends_of_writes ?_ hright
  refine writes_one _ (TraceEvent.new .error .sent (rawBytesPayload bytes)) rfl rfl rfl ?_
  exact iff_of_false (fun h => nomatch h.1) id

/-- **What a single send writes.** -/
theorem executeSingleSend_extends (send : ScriptSend) (request : BlockFetchRequest)
    (fixture : Option BlockFixtureChain) (s : BlockFetchSession) :
    Extends s ((executeSingleSend send request fixture s.state).run s).2 := by
  have same : ∀ {s' : BlockFetchSession}, s' = s → Extends s s' := by
    intro s' h
    rw [h]
    exact extends_of_same rfl rfl rfl
  cases send with
  | noBlocks => exact extends_of_writes (sendNoBlocks_writes _) Iff.rfl
  | startBatch => exact extends_of_writes (sendStartBatch_writes _) Iff.rfl
  | block source =>
    rw [executeSingleSend]
    rcases hbytes : blockSourceBytes source with f | body
    · exact same rfl
    · exact extends_of_writes (sendBlock_writes source body _ _) Iff.rfl
  | batchDone => exact extends_of_writes (sendBatchDone_writes _ _) Iff.rfl
  | streamBatch sources =>
    rw [executeSingleSend]
    rcases hentries : streamEntries request fixture sources with f | entries
    · exact same rfl
    · let noted := ((noteSend (.streamBatch sources) : BlockFetchServer Unit).run s).2
      have hend := Prog.run_bind_pure_snd (sendStream s.state entries) (fun _ => false) noted
      have hwrites : Writes True noted ((sendStream s.state entries).run noted).2 :=
        sendStream_writes entries noted
      rw [← hend] at hwrites
      exact extends_of_writes hwrites Iff.rfl
  | rawBytes bytes => exact rawBytes_extends bytes request fixture s
  | _ => exact same rfl

/-- **The trace of a Block-Fetch session is faithful exactly if every step it performed
is annotated as it should.** -/
theorem blockTrace_faithful_iff (rules : List ScriptRule) (fixture : Option BlockFixtureChain)
    (incoming : List BlockFetchRequest) :
    let s := ((executeBlockFetchScript rules fixture incoming).run session).2
    Faithful s.trace ↔ ∀ step ∈ s.performed, RightlyAnnotated step := by
  intro s
  have hwithin : Within Extends (executeBlockFetchScript rules fixture incoming) :=
    executeBlockFetchScript_within keeps_extends (fun _ _ => extends_of_same rfl rfl rfl)
      receive_extends
      (fun rule _ send _ request s => executeSingleSend_extends send request fixture s) incoming
  obtain ⟨events, steps, htrace, hperf, hpath, hright⟩ := hwithin session
  have htrace : s.trace = events := htrace
  have hperf : s.performed = steps := hperf
  rw [htrace, hperf]
  constructor
  · intro h
    exact hright.mp h.annotated
  · intro h
    exact faithful_of_path hpath (hright.mpr h)

/-- A block in reply to a request, without a batch around it. -/
theorem block_outside_batch_misannotated :
    ¬ Faithful ((executeBlockFetchScript [⟨.requestRange, .block (.literal [0xa0]), false⟩] none
      [.requestRange .origin .origin]).run session).2.trace := by
  intro h
  exact absurd h.annotated (by decide)

end BlockAnnotations

end Proof

end ConformanceHarness
