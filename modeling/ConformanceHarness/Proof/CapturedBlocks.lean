import Mathlib.Data.List.Forall2
import ConformanceHarness.Lib.Chunks
import ConformanceHarness.Miniprotocols.BlockFetch

/-!
# Captured blocks

`run_block_fetch` captures the bodies of a request that asks for one point, under that point. Which
request does is decided by how many points it is about, and not by the size of the batches: what
is left over for the last request may be a single point. And all that the server delivers for a
point is captured, not only the first body.
-/

namespace ConformanceHarness

open BlockFetchClient

/-- The bodies that a request has brought. -/
def delivered : RangeReply → List (List UInt8)
  | .batch bodies _ => bodies
  | .noBlocks => []
  | .error _ => []

/-- A requested point that the server has delivered bodies for. -/
structure FetchedPoint where
  slot : UInt64
  blockHash : List UInt8
  bodies : List (List UInt8)

/-- These points, in the order of the requests, where each is about one point; the first has
number `i`. -/
def fetchedPoints (range : Nat → RangeReply) : Nat → List Point → List FetchedPoint
  | _, [] => []
  | i, .origin :: rest => fetchedPoints range (i + 1) rest
  | i, .specific slot hash :: rest =>
    match delivered (range i) with
    | [] => fetchedPoints range (i + 1) rest
    | body :: more => ⟨slot, hash, body :: more⟩ :: fetchedPoints range (i + 1) rest

/-- The block is one that was delivered for the point. -/
structure BlockOf (point : FetchedPoint) (block : CapturedBlock) : Prop where
  slot : block.slot = point.slot
  blockHash : block.blockHash = point.blockHash
  cbor : block.cbor ∈ point.bodies

/-- Nothing is captured of larger batches, and one block of each point that was delivered. -/
def Attributed (points : List Point) (batchSize : Nat) (range : Nat → RangeReply)
    (captured : List CapturedBlock) : Prop :=
  if 1 < batchSize then captured = []
  else List.Forall₂ BlockOf (fetchedPoints range 0 points) captured

/-- For no point of the chain are two bodies delivered. -/
def OneBlockEach (points : List Point) (range : Nat → RangeReply) : Prop :=
  ∀ k slot hash, points[k]? = some (.specific slot hash) → (delivered (range k)).length ≤ 1

/-- If one point is left over for the last request, nothing is delivered for it. -/
def NothingLeftOver (points : List Point) (batchSize : Nat) (range : Nat → RangeReply) : Prop :=
  ∀ slot hash, points.length % batchSize = 1 → points.getLast? = some (.specific slot hash) →
    delivered (range (points.length / batchSize)) = []

/-- The bodies, if there is a point to capture them under. -/
def capturedUnder (bodies : List (List UInt8)) :
    Option (UInt64 × List UInt8) → List CapturedBlock
  | none => []
  | some point => bodies.map fun body => ⟨point.1, point.2, body⟩

/-- What of a request is captured. -/
def capturedOfBatch (batch : List Point) (bodies : List (List UInt8)) : List CapturedBlock :=
  capturedUnder bodies (capturePoint batch)

/-- What of the requests from number `i` on is captured. -/
def captures (range : Nat → RangeReply) : Nat → List (List Point) → List CapturedBlock
  | _, [] => []
  | i, batch :: rest =>
    capturedOfBatch batch (delivered (range i)) ++ captures range (i + 1) rest

namespace Proof

open ConformanceHarness.Lib (Prog)

/-! ## What a session captures -/

section

variable {s s' : Session Unit BlockFetchProgress BlockFetchClientMessage Unit}

theorem receiveBlocks_captured {capture : Option (UInt64 × List UInt8)} {failed : Option String}
    {bodies : List (List UInt8)} {received : Nat}
    (h : (receiveBlocks capture failed received bodies).run s = (.ok (), s')) :
    s'.locals.capturedBlocks = s.locals.capturedBlocks ++ capturedUnder bodies capture := by
  induction bodies generalizing received s with
  | nil =>
    cases failed with
    | none =>
      obtain ⟨-, rfl⟩ := Prod.mk.inj h
      cases capture <;> exact (List.append_nil _).symm
    | some message => cases (Prod.mk.inj h).1
  | cons body rest ih =>
    have hblock := ih h
    cases capture with
    | none => exact hblock.trans (List.append_assoc s.locals.capturedBlocks [] [])
    | some point => exact hblock.trans (List.append_assoc s.locals.capturedBlocks _ _)

theorem requestRange_captured {batch : List Point} {fromPoint toPoint : Point} {reply : RangeReply}
    (h : (requestRange batch fromPoint toPoint reply).run s = (.ok (), s')) :
    s'.locals.capturedBlocks =
      s.locals.capturedBlocks ++ capturedOfBatch batch (delivered reply) := by
  cases reply with
  | error message => cases (Prod.mk.inj h).1
  | noBlocks =>
    obtain ⟨-, rfl⟩ := Prod.mk.inj h
    rw [capturedOfBatch, delivered]
    cases capturePoint batch <;> exact (List.append_nil _).symm
  | batch bodies failed =>
    have hblocks := @receiveBlocks_captured _ s' (capturePoint batch) failed bodies 0 h
    exact hblocks

/-- **The requests capture what is captured of each.** -/
theorem fetchBatches_captured {range : Nat → RangeReply} {batches : List (List Point)} {i : Nat}
    (h : (fetchBatches range i batches).run s = (.ok (), s')) :
    s'.locals.capturedBlocks = s.locals.capturedBlocks ++ captures range i batches := by
  induction batches generalizing i s with
  | nil =>
    obtain ⟨-, rfl⟩ := Prod.mk.inj h
    exact (List.append_nil _).symm
  | cons batch rest ih =>
    rw [fetchBatches] at h
    rcases hhead : batch.head? with _ | fromPoint <;>
      rcases hlast : batch.getLast? with _ | toPoint <;> rw [hhead, hlast] at h
    · cases (Prod.mk.inj h).1
    · cases (Prod.mk.inj h).1
    · cases (Prod.mk.inj h).1
    · obtain ⟨u, t, hrequest, hrest⟩ := Prog.bind_returned h
      rw [ih hrest, requestRange_captured hrequest, captures, List.append_assoc]

theorem sendDone_captured {done : Except String Unit} :
    ((sendDone done).run s).2.locals.capturedBlocks = s.locals.capturedBlocks := by
  cases done <;> rfl

/-- A session that is accepted has captured what its requests do. -/
theorem runBlockFetch_captured {points : List Point} {batchSize : Nat}
    {replies : BlockFetchReplies} {summary : BlockFetchSummary}
    (h : (runBlockFetch points batchSize replies).run session = (.ok summary, s')) :
    summary.capturedBlocks =
      captures replies.range 0 (points.toChunks (max batchSize 1)) := by
  obtain ⟨u, s₁, hstarted, h⟩ := Prog.bind_returned h
  obtain ⟨-, rfl⟩ := Prod.mk.inj hstarted
  obtain ⟨u, s₂, hfetched, h⟩ := Prog.bind_returned h
  obtain ⟨u, s₃, hdone, h⟩ := Prog.bind_returned h
  have hcaptured := fetchBatches_captured hfetched
  have hsame := @sendDone_captured s₂ replies.done
  rw [hdone] at hsame
  obtain ⟨hsummary, -⟩ := Prod.mk.inj h
  obtain rfl := Except.ok.inj hsummary
  exact hsame.trans hcaptured

end

/-! ## Requests of one point -/

/-- What holds of the elements of a list, by their numbers from `i` on. -/
theorem forall_getElem?_cons {α : Type} {p : Nat → α → Prop} {a : α} {l : List α} {i : Nat} :
    (∀ k b, (a :: l)[k]? = some b → p (i + k) b) ↔
      p i a ∧ ∀ k b, l[k]? = some b → p (i + 1 + k) b := by
  constructor
  · intro h
    refine ⟨h 0 a rfl, fun k b hk => ?_⟩
    rw [Nat.add_assoc, Nat.add_comm 1]
    exact h (k + 1) b hk
  · rintro ⟨hfirst, hrest⟩ k b hk
    cases k with
    | zero =>
      obtain rfl := Option.some.inj hk
      exact hfirst
    | succ k =>
      rw [← Nat.add_assoc, Nat.add_right_comm]
      exact hrest k b hk

section

variable {range : Nat → RangeReply} {points : List Point} {i : Nat}

/-- One body for each point: a body for it, or none. -/
def FewBodies (range : Nat → RangeReply) (k : Nat) : Point → Prop
  | .origin => True
  | .specific _ _ => (delivered (range k)).length ≤ 1

theorem captures_specific (slot : UInt64) (hash : List UInt8) (rest : List (List Point)) :
    captures range i ([.specific slot hash] :: rest) =
      (delivered (range i)).map (fun body => ⟨slot, hash, body⟩) ++
        captures range (i + 1) rest := rfl

/-- As many blocks are captured as points have been delivered, or more. -/
theorem fetchedPoints_length_le :
    (fetchedPoints range i points).length ≤
      (captures range i (points.map fun p => [p])).length := by
  induction points generalizing i with
  | nil => exact Nat.le_refl 0
  | cons p rest ih =>
    rw [List.map_cons]
    cases p with
    | origin => exact ih
    | specific slot hash =>
      rw [captures_specific, List.length_append, List.length_map, fetchedPoints]
      rcases delivered (range i) with _ | ⟨body, more⟩
      · rw [List.length_nil, Nat.zero_add]
        exact ih
      · have hrest := ih (i := i + 1)
        rw [List.length_cons, List.length_cons]
        omega

/-- If it is as many, no point has been delivered twice. -/
theorem fewBodies_of_length
    (h : (captures range i (points.map fun p => [p])).length =
      (fetchedPoints range i points).length) :
    ∀ k q, points[k]? = some q → FewBodies range (i + k) q := by
  induction points generalizing i with
  | nil => exact fun k q hk => absurd hk.symm (Option.some_ne_none q)
  | cons p rest ih =>
    rw [forall_getElem?_cons (p := FewBodies range)]
    rw [List.map_cons] at h
    cases p with
    | origin => exact ⟨trivial, ih h⟩
    | specific slot hash =>
      have hle : (fetchedPoints range (i + 1) rest).length ≤
          (captures range (i + 1) (rest.map fun p => [p])).length := fetchedPoints_length_le
      rw [captures_specific, List.length_append, List.length_map, fetchedPoints] at h
      rw [FewBodies]
      rcases hbodies : delivered (range i) with _ | ⟨body, more⟩ <;> rw [hbodies] at h
      · rw [List.length_nil, Nat.zero_add] at h
        exact ⟨Nat.zero_le 1, ih h⟩
      · rw [List.length_cons, List.length_cons] at h
        exact ⟨by rw [List.length_cons]; omega, ih (by omega)⟩

/-- Then every block captured is the one of its point. -/
theorem forall₂_of_fewBodies (h : ∀ k q, points[k]? = some q → FewBodies range (i + k) q) :
    List.Forall₂ BlockOf (fetchedPoints range i points)
      (captures range i (points.map fun p => [p])) := by
  induction points generalizing i with
  | nil => exact .nil
  | cons p rest ih =>
    rw [forall_getElem?_cons (p := FewBodies range)] at h
    rw [List.map_cons]
    cases p with
    | origin => exact ih h.2
    | specific slot hash =>
      have hfew := h.1
      rw [FewBodies] at hfew
      rw [captures_specific, fetchedPoints]
      rcases hbodies : delivered (range i) with _ | ⟨body, _ | ⟨other, more⟩⟩ <;>
        rw [hbodies] at hfew
      · exact ih h.2
      · exact .cons ⟨rfl, rfl, List.mem_singleton_self body⟩ (ih h.2)
      · rw [List.length_cons, List.length_cons] at hfew
        omega

/-- **Requests of one point capture one block each exactly if no more is delivered.** -/
theorem forall₂_captures_iff :
    List.Forall₂ BlockOf (fetchedPoints range 0 points)
        (captures range 0 (points.map fun p => [p])) ↔ OneBlockEach points range := by
  have hfew : (∀ k q, points[k]? = some q → FewBodies range (0 + k) q) ↔
      OneBlockEach points range := by
    constructor
    · intro h k slot hash hk
      have hbodies := h k (.specific slot hash) hk
      rwa [Nat.zero_add] at hbodies
    · intro h k q hk
      rw [Nat.zero_add]
      cases q with
      | origin => trivial
      | specific slot hash => exact h k slot hash hk
  rw [← hfew]
  exact ⟨fun h => fewBodies_of_length h.length_eq.symm, forall₂_of_fewBodies⟩

end

/-! ## Larger batches -/

section

variable {range : Nat → RangeReply} {batches : List (List Point)} {i : Nat}

theorem captures_eq_nil :
    captures range i batches = [] ↔ ∀ k batch, batches[k]? = some batch →
      capturedOfBatch batch (delivered (range (i + k))) = [] := by
  induction batches generalizing i with
  | nil => exact ⟨fun _ k q hk => absurd hk.symm (Option.some_ne_none q), fun _ => rfl⟩
  | cons batch rest ih =>
    rw [captures, List.append_eq_nil_iff, ih, forall_getElem?_cons
      (p := fun k chunk => capturedOfBatch chunk (delivered (range k)) = [])]

/-- Nothing is captured of a request if it is not about one point, or brings nothing. -/
theorem capturedOfBatch_eq_nil {batch : List Point} {bodies : List (List UInt8)} :
    capturedOfBatch batch bodies = [] ↔
      ∀ slot hash, batch = [.specific slot hash] → bodies = [] := by
  rcases batch with _ | ⟨p, _ | ⟨q, rest⟩⟩
  · exact ⟨fun _ _ _ h => absurd h.symm (List.cons_ne_nil _ _), fun _ => rfl⟩
  · cases p with
    | origin => exact ⟨fun _ _ _ h => (nomatch (List.cons.inj h).1), fun _ => rfl⟩
    | specific slot hash =>
      constructor
      · intro h _ _ _
        exact List.map_eq_nil_iff.mp h
      · intro h
        rw [h slot hash rfl]
        rfl
  · refine ⟨fun _ _ _ h => absurd (List.cons.inj h).2 (List.cons_ne_nil q rest), fun _ => ?_⟩
    cases p <;> rfl

/-- **Larger batches capture nothing exactly if nothing is delivered for a point left over.** -/
theorem captures_toChunks_iff {points : List Point} {batchSize : Nat} (hsize : 1 < batchSize) :
    captures range 0 (points.toChunks batchSize) = [] ↔
      NothingLeftOver points batchSize range := by
  rw [captures_eq_nil]
  constructor
  · intro h slot hash hmod hlast
    have hchunk := (Lib.getElem?_toChunks_singleton hsize).mpr ⟨hmod, rfl, hlast⟩
    have hnone := capturedOfBatch_eq_nil.mp (h _ _ hchunk) slot hash rfl
    rwa [Nat.zero_add] at hnone
  · intro h k batch hk
    refine capturedOfBatch_eq_nil.mpr ?_
    rintro slot hash rfl
    obtain ⟨hmod, rfl, hlast⟩ := (Lib.getElem?_toChunks_singleton hsize).mp hk
    rw [Nat.zero_add]
    exact h slot hash hmod hlast

end

/-- **Blocks are captured as they should be exactly if** no single point is left over for the last
request of larger batches and delivered, and no point is delivered twice where each is requested
by itself. -/
theorem captured_blocks_iff {points : List Point} {batchSize : Nat} {replies : BlockFetchReplies}
    {summary : BlockFetchSummary}
    {s' : Session Unit BlockFetchProgress BlockFetchClientMessage Unit}
    (h : (runBlockFetch points batchSize replies).run session = (.ok summary, s')) :
    Attributed points batchSize replies.range summary.capturedBlocks ↔
      if 1 < batchSize then NothingLeftOver points batchSize replies.range
      else OneBlockEach points replies.range := by
  rw [runBlockFetch_captured h, Attributed]
  by_cases hsize : 1 < batchSize
  · rw [if_pos hsize, if_pos hsize, Nat.max_eq_left (Nat.le_of_lt hsize)]
    exact captures_toChunks_iff hsize
  · rw [if_neg hsize, if_neg hsize, Nat.max_eq_right (Nat.not_lt.mp hsize), Lib.toChunks_one]
    exact forall₂_captures_iff

/-! ## A point that is left over -/

/-- Three points of the chain. -/
def threePoints : List Point := [.specific 1 [1], .specific 2 [2], .specific 3 [3]]

/-- A server that delivers one body for every request. -/
def oneBodyEach : BlockFetchReplies where
  range := fun _ => .batch [[0]] none
  done := .ok ()

/-- One by one, each is captured. -/
theorem captured_blocks_threePoints : ∃ summary s',
    (runBlockFetch threePoints 1 oneBodyEach).run session = (.ok summary, s') ∧
      (Attributed threePoints 1 oneBodyEach.range summary.capturedBlocks ↔
        if 1 < 1 then NothingLeftOver threePoints 1 oneBodyEach.range
        else OneBlockEach threePoints oneBodyEach.range) :=
  ⟨_, _, rfl, captured_blocks_iff rfl⟩

/-- **In batches of two, the third is captured.** -/
theorem left_over_captured : ∃ summary s',
    (runBlockFetch threePoints 2 oneBodyEach).run session = (.ok summary, s') ∧
      summary.capturedBlocks = [⟨3, [3], [0]⟩] ∧
      ¬ Attributed threePoints 2 oneBodyEach.range summary.capturedBlocks :=
  ⟨_, _, rfl, rfl, by
    rw [Attributed, if_pos (by decide)]
    exact List.cons_ne_nil _ _⟩

end Proof

end ConformanceHarness
