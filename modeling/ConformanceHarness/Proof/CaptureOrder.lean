import ConformanceHarness.Proof.CapturedBlocks
import ConformanceHarness.Proof.FetchedPoints
import ConformanceHarness.Proof.FixtureRoundTrip
import ConformanceHarness.Runner.ConcurrentCapture

/-!
# Capture files of concurrent steps

A capture file has one anchor, and after it what the steps of all branches have captured, one step
after the other. The flag of a kind says whether its anchor is there, and it is written only if it
is not; so nothing that a step has written is lost. But there is a flag for each kind: two kinds
that share one file destroy each other's entries.
-/

namespace ConformanceHarness.Concurrent

open ConformanceHarness.Lib
open ConformanceHarness.Lib.Scope (ReachesIn Step seq)
open ConformanceHarness.Runner (LeafKind RunError)
open FixtureFile (textBytes)
open Proof (oneBodyEach)

variable {S : Setting} {C : CaptureSetting}

/-! ## The files -/

namespace CaptureFiles

variable {f : CaptureFiles} {kind other : CaptureKind} {path : String}

/-- What has been written of a kind. -/
def writtenOf (f : CaptureFiles) (kind : CaptureKind) : List Written :=
  f.written.filter (·.kind = kind)

/-- An anchor, and what was written behind it. -/
def anchored (ws : List Written) : List UInt8 :=
  textBytes [anchorLine .origin] ++ ws.flatMap Written.bytes

/-- The file of a kind is anchored if its flag says so, and else no step has written to it. -/
def Sound (C : CaptureSetting) (f : CaptureFiles) : Prop :=
  ∀ kind path, C.path kind = some path →
    if f.anchorWritten kind then f.file path = some (anchored (f.writtenOf kind))
    else f.writtenOf kind = []

@[simp] theorem setFile_anchorWritten (file : FileBytes) :
    (f.setFile path file).anchorWritten kind = f.anchorWritten kind := by
  cases kind <;> rfl

@[simp] theorem setFile_written (file : FileBytes) : (f.setFile path file).written = f.written :=
  rfl

@[simp] theorem setFile_self (file : FileBytes) : (f.setFile path file).file path = file :=
  Function.update_self ..

theorem setFile_of_ne {p : String} (h : p ≠ path) (file : FileBytes) :
    (f.setFile path file).file p = f.file p := Function.update_of_ne h ..

@[simp] theorem record_file (w : Written) : (f.record w).file = f.file := rfl

@[simp] theorem record_anchorWritten (w : Written) :
    (f.record w).anchorWritten kind = f.anchorWritten kind := by
  cases kind <;> rfl

@[simp] theorem storeAnchorWritten_file : (f.storeAnchorWritten kind).file = f.file := by
  cases kind <;> rfl

@[simp] theorem storeAnchorWritten_written :
    (f.storeAnchorWritten kind).written = f.written := by
  cases kind <;> rfl

@[simp] theorem storeAnchorWritten_self :
    (f.storeAnchorWritten kind).anchorWritten kind = true := by
  cases kind <;> rfl

theorem storeAnchorWritten_other (h : other ≠ kind) :
    (f.storeAnchorWritten kind).anchorWritten other = f.anchorWritten other := by
  cases kind <;> cases other <;> first | rfl | exact absurd rfl h

theorem record_writtenOf (w : Written) :
    (f.record w).writtenOf kind = f.writtenOf kind ++ if w.kind = kind then [w] else [] := by
  unfold writtenOf record
  rw [List.filter_append]
  by_cases h : w.kind = kind <;> simp [h]

theorem anchored_append (ws ws' : List Written) :
    anchored (ws ++ ws') = anchored ws ++ ws'.flatMap Written.bytes := by
  rw [anchored, List.flatMap_append, ← List.append_assoc]
  rfl

/-- Captures that have been completed have written all their entries. -/
theorem flatMap_bytes {ws : List Written} (h : ∀ w ∈ ws, w.completed = true) :
    ws.flatMap Written.bytes = textBytes (ws.flatMap Written.lines) := by
  induction ws with
  | nil => rfl
  | cons w ws ih =>
    obtain ⟨hw, hws⟩ := List.forall_mem_cons.mp h
    rw [List.flatMap_cons, List.flatMap_cons, w.whole hw, ih hws, FixtureFile.textBytes_append]

theorem anchored_of_completed {ws : List Written} (h : ∀ w ∈ ws, w.completed = true) :
    anchored ws = textBytes (anchorLine .origin :: ws.flatMap Written.lines) := by
  rw [anchored, flatMap_bytes h, ← FixtureFile.textBytes_append]
  rfl

/-- The entries of a capture are added to what is in the file. -/
theorem appendEntries_eq {lines : List String} (h : lines ≠ []) :
    f.appendEntries path lines = f.appendBytes path (textBytes lines) := by
  obtain ⟨line, rest, rfl⟩ := List.exists_cons_of_ne_nil h
  have hfirst : FixtureFile.appendEntry id line (f.file path) =
      FixtureFile.openAppending (f.file path) ++ textBytes [line] := by
    rw [FixtureFile.textBytes_singleton]
    rfl
  rw [appendEntries, appendBytes, List.foldl_cons, hfirst, FixtureFile.foldl_appendEntry,
    List.map_id, List.append_assoc, ← FixtureFile.textBytes_append]
  rfl

/-- An anchor that is written now is all there is. -/
theorem anchor_file_first (h : f.anchorWritten kind = false) :
    (f.anchor kind path).file path = some (textBytes [anchorLine .origin]) := by
  rw [anchor, h, if_neg Bool.false_ne_true, storeAnchorWritten_file, setFile_self,
    FixtureFile.writeAnchor_eq]

/-- A file whose anchor is there, or is written now. -/
theorem anchor_file (hsound : Sound C f) (hpath : C.path kind = some path) :
    (f.anchor kind path).file path = some (anchored (f.writtenOf kind)) := by
  have hkind := hsound kind path hpath
  split at hkind
  · next hflag =>
    rw [anchor, if_pos hflag]
    exact hkind
  · next hflag =>
    rw [anchor_file_first (Bool.not_eq_true _ ▸ hflag), hkind]
    exact congrArg some (List.append_nil _).symm

theorem anchor_anchorWritten : (f.anchor kind path).anchorWritten kind = true := by
  unfold anchor
  split
  · assumption
  · exact storeAnchorWritten_self

/-- Nothing else is changed with the anchor. -/
theorem anchor_other (h : other ≠ kind) {p : String} (hp : p ≠ path) :
    (f.anchor kind path).anchorWritten other = f.anchorWritten other ∧
      (f.anchor kind path).file p = f.file p := by
  unfold anchor
  split
  · exact ⟨rfl, rfl⟩
  · rw [storeAnchorWritten_other h, setFile_anchorWritten, storeAnchorWritten_file,
      setFile_of_ne hp]
    exact ⟨rfl, rfl⟩

theorem anchor_written : (f.anchor kind path).written = f.written := by
  unfold anchor
  split
  · rfl
  · rw [storeAnchorWritten_written, setFile_written]

theorem capture_written (lines : List String) :
    (f.capture kind path lines).written = f.written ++ [.all kind lines] :=
  congrArg (· ++ [Written.all kind lines]) anchor_written

/-- The first capture of its kind leaves nothing else in the file. -/
theorem capture_file_first (h : f.anchorWritten kind = false) {lines : List String}
    (hlines : lines ≠ []) :
    (f.capture kind path lines).file path = some (textBytes (anchorLine .origin :: lines)) := by
  rw [capture, record_file, appendEntries_eq hlines, appendBytes, setFile_self,
    anchor_file_first h]
  exact congrArg some (FixtureFile.textBytes_append _ _).symm

end CaptureFiles

open CaptureFiles (Sound)

/-- No file is for headers and for blocks. -/
def CaptureSetting.Separate (C : CaptureSetting) : Prop :=
  ∀ kind other path, C.path kind = some path → C.path other = some path → kind = other

section

variable {f f' : CaptureFiles} {kind : CaptureKind} {path : String}

/-- What is written of a capture leaves the files sound. -/
theorem Sound.append (hsound : Sound C f) (hseparate : C.Separate) {w : Written}
    (hpath : C.path w.kind = some path) :
    Sound C (((f.anchor w.kind path).appendBytes path w.bytes).record w) := by
  intro kind p hp
  rw [CaptureFiles.record_anchorWritten, CaptureFiles.record_writtenOf, CaptureFiles.record_file]
  have hwritten : ((f.anchor w.kind path).appendBytes path w.bytes).writtenOf kind =
      f.writtenOf kind :=
    congrArg (List.filter fun w : Written => decide (w.kind = kind)) CaptureFiles.anchor_written
  rw [hwritten, CaptureFiles.appendBytes, CaptureFiles.setFile_anchorWritten]
  by_cases hkind : w.kind = kind
  · subst hkind
    obtain rfl : path = p := Option.some.inj (hpath.symm.trans hp)
    rw [if_pos CaptureFiles.anchor_anchorWritten, if_pos rfl, CaptureFiles.setFile_self,
      CaptureFiles.anchor_file hsound hpath, CaptureFiles.anchored_append, List.flatMap_singleton]
    rfl
  · -- the other kind has another file
    have hother : p ≠ path := by
      rintro rfl
      exact hkind (hseparate _ _ p hpath hp)
    obtain ⟨hflag, hfile⟩ := CaptureFiles.anchor_other (f := f) (Ne.symm hkind) hother
    rw [hflag, if_neg hkind, List.append_nil, CaptureFiles.setFile_of_ne hother, hfile]
    exact hsound kind p hp

/-- So does an anchor that could not be written. -/
theorem Sound.setFile (hsound : Sound C f) (hseparate : C.Separate)
    (hpath : C.path kind = some path) (hfirst : f.anchorWritten kind = false) (file : FileBytes) :
    Sound C (f.setFile path file) := by
  intro other p hp
  have hother := hsound other p hp
  rw [CaptureFiles.setFile_anchorWritten]
  by_cases hkind : kind = other
  · subst hkind
    rw [hfirst] at hother ⊢
    exact hother
  · have hne : p ≠ path := by
      rintro rfl
      exact hkind (hseparate _ _ p hpath hp)
    rw [CaptureFiles.setFile_of_ne hne]
    exact hother

/-- **A capture leaves the files sound**, whether it is completed or not. -/
theorem Captures.sound {lines : List String} {rest : Prog}
    (h : Captures kind path lines f f' rest) (hseparate : C.Separate)
    (hpath : C.path kind = some path) (hlines : lines ≠ []) (hsound : Sound C f) :
    Sound C f' := by
  cases h with
  | completed =>
    rw [CaptureFiles.capture, CaptureFiles.appendEntries_eq hlines]
    exact Sound.append hsound hseparate (w := .all kind lines) hpath
  | @cut w hkind hlines hcut e =>
    subst hkind
    exact Sound.append hsound hseparate hpath
  | unanchored hfirst file e => exact Sound.setFile hsound hseparate hpath hfirst file

end

/-! ## Every interleaving -/

/-- A step writes to the path of what it captures. -/
theorem writing_path {held : List Action} {x : CaptureState} {l : Leaf} {kind : CaptureKind}
    {path : String} (h : writing C held x = some (l, kind, path)) : C.path kind = some path := by
  unfold writing at h
  split at h
  · simp only [Option.bind_eq_bind, Option.bind_eq_some_iff, Option.pure_def,
      Option.some.injEq, Prod.mk.injEq] at h
    obtain ⟨_, -, _, -, _, hpath, -, rfl, rfl⟩ := h
    exact hpath
  · exact absurd h (Option.some_ne_none _).symm

theorem Ending.sound {held : List Action} {x : CaptureState} {files : CaptureFiles} {rest : Prog}
    (h : Ending C held x files rest) (hseparate : C.Separate) (hsound : Sound C x.files) :
    Sound C files := by
  cases h with
  | unwritten hwriting rest => exact hsound
  | nothing hwriting hcaptured rest => exact hsound
  | captures hwriting hcaptured hlines h =>
    exact h.sound hseparate (writing_path hwriting) hlines hsound

/-- Only the end of a step changes the files. -/
theorem captureExec_files {held : List Action} {a : Action} {x x' : CaptureState} {rest : Prog}
    (h : captureExec S C held a x x' rest) : x'.files = x.files ∨ Ending C held x x'.files rest := by
  cases a with
  | io => exact Or.inr h.2.2
  | _ => exact Or.inl h.2.1

/-- **The files stay sound in every interleaving.** -/
theorem sound_preserves (hseparate : C.Separate) :
    Preserves (captureMachine S C) (Genuine S true S.scenario.steps) fun x => Sound C x.files where
  exec := by
    intro held a x x' rest h ha hsound
    refine ⟨?_, (exec_effect h.1 ha).leaves.1⟩
    rcases captureExec_files h with hsame | hending
    · rwa [hsame]
    · exact hending.sound hseparate hsound
  drop := fun hsound => hsound
  ambient := by
    rintro x x' ⟨-, -, hfiles⟩ hsound
    rwa [hfiles]

/-- **Concurrent captures keep a fixture well formed**, unless one file is for both kinds: once a
step has written to it, it consists of an anchor and of what the steps have written, one after the
other. That is all their entries, unless a file operation has failed. -/
theorem captures_well_formed (hseparate : C.Separate) {file : String → FileBytes} {c : Prog}
    {x : CaptureState}
    (h : Scope.Reaches (captureMachine S C) (run S, .initial file) (c, x)) {kind : CaptureKind}
    {path : String} (hpath : C.path kind = some path) (hwritten : x.files.writtenOf kind ≠ []) :
    x.files.file path = some (CaptureFiles.anchored (x.files.writtenOf kind)) ∧
      ((∀ w ∈ x.files.writtenOf kind, w.completed = true) →
        x.files.file path = some (textBytes
          (anchorLine .origin :: (x.files.writtenOf kind).flatMap Written.lines))) := by
  have hinitial : Sound C (CaptureState.initial file).files := by
    intro kind path hpath
    cases kind <;> rfl
  have hsound := ((sound_preserves hseparate).reachesIn h (Code.genuine run_code) hinitial).2
  have hfile : x.files.file path = some (CaptureFiles.anchored (x.files.writtenOf kind)) := by
    have hkind := hsound kind path hpath
    split at hkind
    · exact hkind
    · exact absurd hkind hwritten
  refine ⟨hfile, fun hcompleted => ?_⟩
  rw [hfile, CaptureFiles.anchored_of_completed hcompleted]

/-! ## Runs of the runner -/

/-- A peer that sends no header. -/
def noHeaders : ChainSyncReplies where
  intersect := .ok (some (.origin, ⟨.origin, 0⟩))
  incoming := []
  ending := .timeout
  done := .ok ()

theorem runChainSync_noHeaders (count : UInt64) : ∃ summary session',
    (ChainSyncClient.runChainSync [] count noHeaders).run ChainSyncClient.session =
      (.ok summary, session') ∧ summary.capturedHeaders = [] := by
  have hloop : ∀ s, ∃ result s',
      (ChainSyncClient.requestLoop count noHeaders.ending noHeaders.incoming).run s =
        (.ok result, s') := by
    intro s
    dsimp only [noHeaders]
    rw [ChainSyncClient.requestLoop, Prog.run_get_bind]
    split
    · exact ⟨_, _, rfl⟩
    · exact ⟨_, _, rfl⟩
  obtain ⟨s₁, hfound⟩ : ∃ s₁, (do
      Session.emit (ChainSyncClient.startedEvent count)
      ChainSyncClient.findIntersection [] noHeaders.intersect).run ChainSyncClient.session =
        (.ok (), s₁) := ⟨_, rfl⟩
  obtain ⟨result, s₂, hloop⟩ := hloop s₁
  obtain ⟨summary, session', hrun⟩ : ∃ summary session',
      (ChainSyncClient.runChainSync [] count noHeaders).run ChainSyncClient.session =
        (.ok summary, session') := by
    rw [ChainSyncClient.runChainSync, ← Prog.bind_assoc, Prog.run_bind_ok hfound,
      Prog.run_bind_ok hloop]
    cases result with
    | some summary => exact ⟨_, _, rfl⟩
    | none => exact ⟨_, _, rfl⟩
  exact ⟨summary, session', hrun, Proof.runChainSync_captured rfl hrun⟩

/-- A session may capture nothing. -/
theorem captured_nil (l : Leaf) (kind : CaptureKind) : Captured C l kind [] := by
  cases kind with
  | headers =>
    obtain ⟨summary, session', hrun, hnone⟩ := runChainSync_noHeaders (l.params.count.getD 10)
    exact ⟨[], noHeaders, summary, session', hrun, by rw [hnone, List.map_nil]⟩
  | blocks => exact ⟨[], oneBodyEach, _, _, rfl, rfl⟩

/-- The runner does not need to be told about captures: every run of it is one in which nothing is
captured. -/
theorem runner_simulated (f : CaptureFiles) : (machine S).Simulates (captureMachine S C)
    fun s x => x.runner = s ∧ x.files = f where
  exec := by
    rintro held a s s' rest x hexec ⟨rfl, rfl⟩
    cases a with
    | io =>
      refine ⟨⟨s', x.user, x.files⟩, ⟨hexec, rfl, ?_⟩, rfl, rfl⟩
      rcases hwriting : writing C held x with _ | ⟨l, kind, path⟩
      · exact .unwritten hwriting rest
      · exact .nothing hwriting (captured_nil l kind) rest
    | take side l leaf => exact ⟨⟨s', _, x.files⟩, ⟨hexec, rfl, rfl⟩, rfl, rfl⟩
    | _ => exact ⟨⟨s', x.user, x.files⟩, ⟨hexec, rfl, rfl⟩, rfl, rfl⟩
  drop := by
    rintro a s x ⟨rfl, rfl⟩
    exact ⟨rfl, rfl⟩
  ambient := by
    rintro s s' x h ⟨rfl, rfl⟩
    exact ⟨⟨s', x.user, x.files⟩, ⟨h, rfl, rfl⟩, rfl, rfl⟩

/-- What the runner does with captures, it does without. -/
theorem captures_simulated : (captureMachine S C).Simulates (machine S) fun x s => x.runner = s where
  exec := by
    rintro held a x x' rest s ⟨hexec, -⟩ rfl
    exact ⟨x'.runner, hexec, rfl⟩
  drop := by
    rintro a x s rfl
    rfl
  ambient := by
    rintro x x' s ⟨h, -, -⟩ rfl
    exact ⟨x'.runner, h, rfl⟩

/-- **Captures are added to the runs of the runner**, which are the same without them. -/
theorem captures_refine {file : String → FileBytes} {c : Prog} {s : State} :
    Scope.Reaches (machine S) (run S, .initial) (c, s) ↔
      ∃ x, Scope.Reaches (captureMachine S C) (run S, .initial file) (c, x) ∧ x.runner = s := by
  constructor
  · intro h
    obtain ⟨x, hreach, hrunner, -⟩ := (runner_simulated (C := C)
      (CaptureState.initial file).files).reachesIn h (t := .initial file) ⟨rfl, rfl⟩
    exact ⟨x, hreach, hrunner⟩
  · rintro ⟨x, h, rfl⟩
    obtain ⟨s, hreach, rfl⟩ := captures_simulated.reachesIn h (t := State.initial) rfl
    exact hreach

/-! ## Two steps that capture -/

/-- Whatever has been written to the trace so far, and whoever has a connection, `c` can come from
`s` and `f` to `c'`, `s'` and `f'`. -/
def CapturesTo (S : Setting) (C : CaptureSetting) (held : List Action) (c : Prog) (s : State)
    (f : CaptureFiles) (c' : Prog) (s' : State) (f' : CaptureFiles) : Prop :=
  ∀ t user, Quiet t → ∃ t' user', Quiet t' ∧ ReachesIn (captureMachine S C) held
    (c, ⟨{ s with trace := t }, user, f⟩) (c', ⟨{ s' with trace := t' }, user', f'⟩)

section

variable {held : List Action} {c c' d k : Prog} {s s₁ s' : State} {f f₁ f' : CaptureFiles}
  {l : Leaf} {token : Token} {conns : Connections}

theorem ComesTo.capturesTo (h : ComesTo S held c s c' s') :
    CapturesTo S C held c s f c' s' f := by
  intro t user ht
  obtain ⟨t', ht', hreach⟩ := h t ht
  obtain ⟨x, hreach, hrunner, hfiles⟩ := (runner_simulated (C := C) f).reachesIn hreach
    (t := ⟨{ s with trace := t }, user, f⟩) ⟨rfl, rfl⟩
  obtain ⟨runner, user', files⟩ := x
  obtain rfl : runner = { s' with trace := t' } := hrunner
  obtain rfl : files = f := hfiles
  exact ⟨t', user', ht', hreach⟩

theorem CapturesTo.trans (h : CapturesTo S C held c s f d s₁ f₁)
    (h' : CapturesTo S C held d s₁ f₁ c' s' f') : CapturesTo S C held c s f c' s' f' := by
  intro t user ht
  obtain ⟨t₁, user₁, ht₁, hreach⟩ := h t user ht
  obtain ⟨t₂, user₂, ht₂, hreach'⟩ := h' t₁ user₁ ht₁
  exact ⟨t₂, user₂, ht₂, hreach.trans hreach'⟩

theorem CapturesTo.inBind {onErr : RunError → Prog} (h : CapturesTo S C held c s f c' s' f') :
    CapturesTo S C held (.bind c k onErr) s f (.bind c' k onErr) s' f' := by
  intro t user ht
  obtain ⟨t', user', ht', hreach⟩ := h t user ht
  exact ⟨t', user', ht', hreach.inBind⟩

/-- A step with a connection, from what it does while it is known to have it. -/
theorem take_capturesTo {kind : LeafKind} (used : State)
    (htake : s.conns.take .client l.onName = some (token, conns))
    (h : ∀ t user, user token.id = some (l, kind) → ReachesIn (captureMachine S C)
      (.checkedOut token :: held) (withConnection l kind, ⟨{ s with conns, trace := t }, user, f⟩)
      (.done, ⟨{ used with trace := t }, user, f'⟩)) :
    CapturesTo S C held (.act (.take .client l kind)) s f .done
      { used with conns := used.conns.putBack token } f' := by
  intro t user ht
  have hexec : exec S held (.take .client l kind) { s with trace := t }
      { s with conns, trace := t } (.hold (.checkedOut token) (withConnection l kind)) := by
    dsimp only [exec]
    rw [htake]
    exact ⟨rfl, rfl⟩
  let taken := Function.update user token.id (some (l, kind))
  have htaken : captureExec S C held (.take .client l kind) ⟨{ s with trace := t }, user, f⟩
      ⟨{ s with conns, trace := t }, taken, f⟩
      (.hold (.checkedOut token) (withConnection l kind)) := by
    refine ⟨hexec, rfl, ?_⟩
    dsimp only
    rw [htake]
  have hused := h t taken (Function.update_self ..)
  exact ⟨t, taken, ht, ((ReachesIn.exec htaken).trans hused.inHold).trans (.single .holdDone)⟩

theorem takeChannel_captures {user : Nat → Option (Leaf × LeafKind)} {channel : Channel}
    {missing : String}
    (h : (s.conns.connection token.id).channels.contains channel = true) :
    ReachesIn (captureMachine S C) (.checkedOut token :: held)
      (.act (.takeChannel channel missing), ⟨s, user, f⟩)
      (.done, ⟨{ s with conns := s.conns.update token.id fun conn =>
        { conn with channels := conn.channels.erase channel } }, user, f⟩) := by
  refine .exec ⟨⟨token, held, rfl, ?_⟩, rfl, rfl⟩
  rw [if_pos h]
  exact ⟨rfl, rfl⟩

theorem session_captures {user : Nat → Option (Leaf × LeafKind)} :
    ReachesIn (captureMachine S C) held (.act .session, ⟨s, user, f⟩) (.done, ⟨s, user, f⟩) :=
  .exec ⟨⟨rfl, Or.inl (Or.inl rfl)⟩, rfl, rfl⟩

/-- What has been captured is written. -/
theorem io_captures {user : Nat → Option (Leaf × LeafKind)} {leaf : LeafKind}
    {kind : CaptureKind} {path : String} {lines : List String}
    (huser : user token.id = some (l, leaf)) (hkind : captureKind leaf = some kind)
    (hpath : C.path kind = some path) (hcaptured : Captured C l kind lines) (hlines : lines ≠ []) :
    ReachesIn (captureMachine S C) (.checkedOut token :: held) (.act .io, ⟨s, user, f⟩)
      (.done, ⟨s, user, f.capture kind path lines⟩) := by
  have hwriting : writing C (.checkedOut token :: held) ⟨s, user, f⟩ = some (l, kind, path) := by
    simp [writing, huser, hkind, hpath]
  exact .exec ⟨⟨rfl, Or.inl rfl⟩, rfl, .captures hwriting hcaptured hlines .completed⟩

theorem chainSync_capturesTo (l : Leaf) (token : Token) {path : String} {lines : List String} {parsed : List Point}
    (points : List Point) (htake : s.conns.take .client l.onName = some (token, conns))
    (hchannel : (conns.connection token.id).channels.contains .cs = true)
    (hparse : mapEntries parsePoint (l.params.intersectionPoints.getD ["origin"]) = .ok parsed)
    (houtput : l.step.output = none) (hpath : C.captureFixturePath = some path)
    (hcaptured : Captured C l .headers lines) (hlines : lines ≠ []) :
    CapturesTo S C held (executeLeaf S l .chainSync) s f .done
      { s with conns := ((conns.update token.id fun conn =>
        { conn with channels := conn.channels.erase .cs }).update token.id
          (·.storePoints points)).putBack token }
      (f.capture .headers path lines) := by
  refine take_capturesTo { s with conns := (conns.update token.id fun conn =>
    { conn with channels := conn.channels.erase .cs }).update token.id (·.storePoints points) }
    htake fun t user huser => ?_
  unfold withConnection
  rw [hparse]
  have hstore : ReachesIn (captureMachine S C) (.checkedOut token :: held)
      (.act (.storePoints l), ⟨{ s with
        conns := conns.update token.id fun conn =>
          { conn with channels := conn.channels.erase .cs }
        trace := t }, user, f⟩)
      (.act .io, ⟨{ s with
        conns := (conns.update token.id fun conn =>
          { conn with channels := conn.channels.erase .cs }).update token.id (·.storePoints points)
        trace := t }, user, f⟩) := by
    refine .exec ⟨⟨token, held, rfl, points, rfl, ?_⟩, rfl, rfl⟩
    rw [houtput]
  have hwrite := hstore.trans (io_captures huser rfl hpath hcaptured hlines)
  exact (takeChannel_captures hchannel).bind (session_captures.bind hwrite)

/-- A step that uses the points of a `chain_sync` step. -/
theorem blockFetch_capturesTo (l : Leaf) (token : Token) {path : String} {lines : List String}
    (htake : s.conns.take .client l.onName = some (token, conns))
    (hchannel : (conns.connection token.id).channels.contains .bf = true)
    (hpoints : l.params.points.getD .fromChainSync = .fromChainSync)
    (hcollected : (conns.connection token.id).lastChainSyncPoints ≠ [])
    (hpath : C.captureBlockFixturePath = some path) (hcaptured : Captured C l .blocks lines)
    (hlines : lines ≠ []) :
    let opened := conns.update token.id fun conn => { conn with channels := conn.channels.erase .bf }
    CapturesTo S C held (executeLeaf S l .blockFetch) s f .done
      { s with
        conns := (opened.update token.id fun conn =>
          { conn with lastChainSyncPoints := [] }).putBack token
        fetched := s.fetched ++ [(opened.connection token.id,
          (opened.connection token.id).lastChainSyncPoints)] }
      (f.capture .blocks path lines) := by
  intro opened
  let fetched : State := { s with
    conns := opened.update token.id fun conn => { conn with lastChainSyncPoints := [] }
    fetched := s.fetched ++ [(opened.connection token.id,
      (opened.connection token.id).lastChainSyncPoints)] }
  refine take_capturesTo fetched htake fun t user huser => ?_
  unfold withConnection
  rw [hpoints]
  have hfetch : ReachesIn (captureMachine S C) (.checkedOut token :: held)
      (.act (.fetchPoints l), ⟨{ s with conns := opened, trace := t }, user, f⟩)
      (.done, ⟨{ fetched with trace := t }, user, f⟩) := by
    have hcollected' : (opened.connection token.id).lastChainSyncPoints ≠ [] := by
      simpa [opened, Connections.update] using hcollected
    refine .exec ⟨⟨token, held, rfl, ?_⟩, rfl, rfl⟩
    dsimp only
    rw [if_neg hcollected']
    exact ⟨rfl, rfl⟩
  exact (takeChannel_captures hchannel).bind
    (hfetch.bind (session_captures.bind (io_captures huser rfl hpath hcaptured hlines)))

end

/-- The steps of the scenario. -/
def syncLeaf : Leaf := ⟨chainSyncStep, default, .object []⟩

/-- What the header and the block of the scenario's sessions are written as. -/
def headerLine (C : CaptureSetting) : String := C.serde.entryToString (Proof.plainEntry 6 6)

def blockLine (C : CaptureSetting) : String :=
  C.blockToString (CapturedBlock.entry ⟨6, List.replicate 32 6, [0]⟩)

theorem captured_header : Captured C syncLeaf .headers [headerLine C] :=
  ⟨[.origin], Proof.growthReplies, _, _, rfl, rfl⟩

theorem captured_block : Captured C fetchLeaf .blocks [blockLine C] :=
  ⟨[.specific 6 (List.replicate 32 6)], oneBodyEach, _, _, rfl, rfl⟩

/-- A scenario of a `chain_sync` and a `block_fetch` step passes, and both capture. -/
theorem fetchScenario_captures {p q : String} (hp : C.captureFixturePath = some p)
    (hq : C.captureBlockFixturePath = some q) (file : String → FileBytes) :
    ∃ x, Scope.Reaches (captureMachine (bareSetting (fetchScenario chainSyncStep)) C)
        (run (bareSetting (fetchScenario chainSyncStep)), .initial file) (.done, x) ∧
      x.files = ((CaptureState.initial file).files.capture .headers p [headerLine C]).capture
        .blocks q [blockLine C] := by
  have hsync : Literal chainSyncStep .chainSync default := ⟨rfl, rfl, rfl, fun _ => rfl⟩
  have hfetch : Literal blockFetchStep .blockFetch default := ⟨rfl, rfl, rfl, fun _ => rfl⟩
  have hheader := (((fetchScenario_connects chainSyncStep).trans
    (runSteps_inside (hsync.inside .refl))).capturesTo (C := C)
      (f := (CaptureState.initial file).files)).trans
    (chainSync_capturesTo syncLeaf ⟨.client, "default", 0⟩
      [.specific 6 (List.replicate 32 6)] rfl rfl rfl rfl hp captured_header
      (List.cons_ne_nil _ _)).inBind.inBind
  have hbetween := hheader.trans (ComesTo.bind (.bind .refl (closing_comesTo rfl))
    (runSteps_inside (hfetch.inside .refl))).capturesTo
  have hblock := hbetween.trans
    (blockFetch_capturesTo fetchLeaf ⟨.client, "default", 0⟩ rfl rfl rfl
      (List.cons_ne_nil _ _) hq captured_block (List.cons_ne_nil _ _)).inBind.inBind
  have hwhole := hblock.trans
    (ComesTo.bind (.bind .refl (closing_comesTo rfl)) complete_comesTo).capturesTo
  obtain ⟨t, user, -, hreach⟩ := hwhole .initial (fun _ => none) .initial
  exact ⟨_, hreach, rfl⟩

/-- Two files. -/
def twoFiles : CaptureSetting where
  serde := Proof.textSerde []
  blockToString := Proof.blockText
  captureFixturePath := some "headers.jsonl"
  captureBlockFixturePath := some "blocks.jsonl"

theorem twoFiles_separate : twoFiles.Separate := by
  intro kind other path hkind hother
  have hdiffer : twoFiles.path .headers ≠ twoFiles.path .blocks := by decide
  cases kind with
  | headers =>
    cases other with
    | headers => rfl
    | blocks => exact absurd (hkind.trans hother.symm) hdiffer
  | blocks =>
    cases other with
    | headers => exact absurd (hother.trans hkind.symm) hdiffer
    | blocks => rfl

/-- Each has what the steps of its kind have captured. -/
theorem captures_well_formed_twoFiles : ∃ x,
    Scope.Reaches (captureMachine (bareSetting (fetchScenario chainSyncStep)) twoFiles)
        (run (bareSetting (fetchScenario chainSyncStep)), .initial fun _ => none) (.done, x) ∧
      x.files.file "headers.jsonl" =
        some (textBytes [anchorLine .origin, headerLine twoFiles]) := by
  obtain ⟨x, hreach, hfiles⟩ := fetchScenario_captures (C := twoFiles) rfl rfl fun _ => none
  have hwritten : x.files.writtenOf .headers = [.all .headers [headerLine twoFiles]] := by
    rw [hfiles, CaptureFiles.writtenOf, CaptureFiles.capture_written, CaptureFiles.capture_written]
    rfl
  have hcompleted : ∀ w ∈ x.files.writtenOf .headers, w.completed = true := by
    rw [hwritten]
    exact List.forall_mem_singleton.mpr rfl
  have hfile : x.files.file "headers.jsonl" = some (textBytes
      (anchorLine .origin :: (x.files.writtenOf .headers).flatMap Written.lines)) :=
    (captures_well_formed twoFiles_separate hreach rfl (hwritten ▸ List.cons_ne_nil _ _)).2
      hcompleted
  rw [hwritten] at hfile
  exact ⟨x, hreach, hfile⟩

/-- One file for both options. -/
def oneFile : CaptureSetting where
  serde := Proof.textSerde []
  blockToString := Proof.blockText
  captureFixturePath := some "capture.jsonl"
  captureBlockFixturePath := some "capture.jsonl"

theorem length_textBytes_perm {texts texts' : List String} (h : texts.Perm texts') :
    (textBytes texts).length = (textBytes texts').length :=
  ((h.map strBytes).flatMap_right _).length_eq

/-- **Where one file is named for both, the headers are lost**, in whatever order the entries of the
steps are expected. -/
theorem one_file_loses_headers : ∃ x,
    Scope.Reaches (captureMachine (bareSetting (fetchScenario chainSyncStep)) oneFile)
        (run (bareSetting (fetchScenario chainSyncStep)), .initial fun _ => none) (.done, x) ∧
      (∀ w ∈ x.files.written, w.completed = true) ∧
      ∀ ws : List Written, ws.Perm x.files.written → x.files.file "capture.jsonl" ≠
        some (textBytes (anchorLine .origin :: ws.flatMap Written.lines)) := by
  obtain ⟨x, hreach, hfiles⟩ := fetchScenario_captures (C := oneFile) rfl rfl fun _ => none
  have hwritten : x.files.written =
      [.all .headers [headerLine oneFile], .all .blocks [blockLine oneFile]] := by
    rw [hfiles, CaptureFiles.capture_written, CaptureFiles.capture_written]
    rfl
  have hfile : x.files.file "capture.jsonl" =
      some (textBytes [anchorLine .origin, blockLine oneFile]) := by
    rw [hfiles]
    exact CaptureFiles.capture_file_first rfl (List.cons_ne_nil _ _)
  refine ⟨x, hreach, ?_, ?_⟩
  · rw [hwritten]
    exact List.forall_mem_cons.mpr ⟨rfl, List.forall_mem_singleton.mpr rfl⟩
  · intro ws hperm hwhole
    rw [hfile] at hwhole
    rw [hwritten] at hperm
    -- the header's line is missing, so the file is too short
    have hlength := length_textBytes_perm ((hperm.flatMap_right Written.lines).cons
      (anchorLine .origin))
    rw [← Option.some.inj hwhole] at hlength
    have hfewer : textBytes [anchorLine .origin, blockLine oneFile] =
        textBytes [anchorLine .origin] ++ textBytes [blockLine oneFile] :=
      FixtureFile.textBytes_append [_] [_]
    have hall : textBytes [anchorLine .origin, headerLine oneFile, blockLine oneFile] =
        textBytes [anchorLine .origin] ++
          (textBytes [headerLine oneFile] ++ textBytes [blockLine oneFile]) := by
      rw [← FixtureFile.textBytes_append, ← FixtureFile.textBytes_append]
      rfl
    have hline : (textBytes [headerLine oneFile]).length =
        (strBytes (headerLine oneFile)).length + 1 := by
      rw [FixtureFile.textBytes_singleton, List.length_append, List.length_singleton]
    have hsame : (textBytes [anchorLine .origin, blockLine oneFile]).length =
        (textBytes [anchorLine .origin, headerLine oneFile, blockLine oneFile]).length := hlength
    rw [hfewer, hall, List.length_append, List.length_append, List.length_append, hline] at hsame
    omega

end ConformanceHarness.Concurrent
