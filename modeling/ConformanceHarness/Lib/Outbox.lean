/-!
# Outboxes

Something is done at once and announced later, item by item: a batch of items is posted in one
go, and written out one at a time while other batches are posted and written next to it. The
batches are numbered, and each keeps what it has not written yet.

Within a batch the order stays. Across batches it is that of the writes, and agrees with that of
the posts as far as no batch is posted before the last one is written out.
-/

namespace ConformanceHarness.Lib

/-- What was posted, what was written, and what each batch still has to write. An item goes with
the number of its batch. -/
structure Outbox (ε : Type) where
  posted : List (Nat × ε)
  written : List (Nat × ε)
  pending : Nat → List ε

namespace Outbox

variable {ε : Type}

def empty : Outbox ε := { posted := [], written := [], pending := fun _ => [] }

/-- The number of the next batch: no item has it. -/
def next (o : Outbox ε) : Nat := o.posted.length

/-- A new batch, unless it is empty. -/
def post (o : Outbox ε) (batch : List ε) : Outbox ε :=
  if batch.isEmpty then o
  else
    { o with
      posted := o.posted ++ batch.map (o.next, ·)
      pending := fun n => if n = o.next then batch else o.pending n }

/-- Batch `n` writes its next item, if it has one. -/
def write (o : Outbox ε) (n : Nat) : Outbox ε :=
  match o.pending n with
  | [] => o
  | item :: rest =>
    { o with
      written := o.written ++ [(n, item)]
      pending := fun m => if m = n then rest else o.pending m }

@[simp] theorem post_nil (o : Outbox ε) : o.post [] = o := rfl

theorem post_cons (o : Outbox ε) (item : ε) (rest : List ε) : o.post (item :: rest) =
    { o with
      posted := o.posted ++ (item :: rest).map (o.next, ·)
      pending := fun n => if n = o.next then item :: rest else o.pending n } := rfl

/-! ## Batches -/

/-- The items of batch `n`. -/
def ofBatch (n : Nat) (items : List (Nat × ε)) : List ε :=
  (items.filter fun x => x.1 = n).map Prod.snd

theorem ofBatch_append (n : Nat) (l l' : List (Nat × ε)) :
    ofBatch n (l ++ l') = ofBatch n l ++ ofBatch n l' := by
  rw [ofBatch, List.filter_append, List.map_append]
  rfl

theorem ofBatch_self (n : Nat) (batch : List ε) : ofBatch n (batch.map (n, ·)) = batch := by
  rw [ofBatch, List.filter_eq_self.mpr, List.map_map]
  · exact List.map_id batch
  · intro x hx
    obtain ⟨item, -, rfl⟩ := List.mem_map.mp hx
    exact decide_eq_true rfl

theorem ofBatch_of_forall_ne {n : Nat} {items : List (Nat × ε)} (h : ∀ x ∈ items, x.1 ≠ n) :
    ofBatch n items = [] := by
  rw [ofBatch, List.filter_eq_nil_iff.mpr, List.map_nil]
  intro x hx hn
  exact h x hx (of_decide_eq_true hn)

theorem ofBatch_ne {n m : Nat} (h : m ≠ n) (batch : List ε) :
    ofBatch n (batch.map (m, ·)) = [] := by
  refine ofBatch_of_forall_ne fun x hx => ?_
  obtain ⟨item, -, rfl⟩ := List.mem_map.mp hx
  exact h

/-- Every batch has written a first part of its items, in their order, and keeps the rest. -/
structure Sound (o : Outbox ε) : Prop where
  batches : ∀ n, ofBatch n o.written ++ o.pending n = ofBatch n o.posted
  numbered : ∀ x ∈ o.posted, x.1 < o.next

theorem Sound.empty : Sound (empty : Outbox ε) where
  batches _ := rfl
  numbered _ hx := nomatch hx

/-- Nothing has the number of the next batch. -/
theorem Sound.next_fresh {o : Outbox ε} (h : Sound o) :
    ofBatch o.next o.written = [] ∧ o.pending o.next = [] ∧ ofBatch o.next o.posted = [] := by
  have hposted : ofBatch o.next o.posted = [] :=
    ofBatch_of_forall_ne fun x hx => Nat.ne_of_lt (h.numbered x hx)
  have hboth := h.batches o.next
  rw [hposted] at hboth
  exact ⟨(List.append_eq_nil_iff.mp hboth).1, (List.append_eq_nil_iff.mp hboth).2, hposted⟩

theorem Sound.post {o : Outbox ε} (h : Sound o) (batch : List ε) : Sound (o.post batch) := by
  cases batch with
  | nil => exact h
  | cons item rest =>
      rw [post_cons]
      refine ⟨fun n => ?_, fun x hx => ?_⟩
      · dsimp only
        rw [ofBatch_append]
        by_cases hn : n = o.next
        · obtain ⟨hwritten, -, hposted⟩ := h.next_fresh
          rw [if_pos hn, hn, hwritten, hposted, ofBatch_self]
        · rw [if_neg hn, ofBatch_ne (Ne.symm hn), List.append_nil, h.batches]
      · show x.1 < (o.posted ++ (item :: rest).map (o.next, ·)).length
        rw [List.length_append, List.length_map, List.length_cons]
        show x.1 < o.next + (rest.length + 1)
        rcases List.mem_append.mp hx with hx | hx
        · have hlt := h.numbered x hx
          omega
        · obtain ⟨_, -, rfl⟩ := List.mem_map.mp hx
          dsimp only
          omega

theorem Sound.write {o : Outbox ε} (h : Sound o) (n : Nat) : Sound (o.write n) := by
  unfold Outbox.write
  split
  · exact h
  · rename_i item rest hpending
    refine ⟨fun m => ?_, h.numbered⟩
    have hm := h.batches m
    show ofBatch m (o.written ++ [(n, item)]) ++ (if m = n then rest else o.pending m) = _
    rw [ofBatch_append]
    by_cases hmn : m = n
    · subst hmn
      rw [if_pos rfl, ← hm, hpending, show [(m, item)] = [item].map (m, ·) from rfl, ofBatch_self,
        List.append_assoc, List.singleton_append]
    · rw [if_neg hmn, show [(n, item)] = [item].map (n, ·) from rfl, ofBatch_ne (Ne.symm hmn),
        List.append_nil, hm]

/-! ## One batch at a time -/

/-- The items that satisfy `p`, whatever their batch. -/
def selected (p : ε → Bool) (items : List (Nat × ε)) : List ε := (items.map Prod.snd).filter p

theorem selected_append (p : ε → Bool) (l l' : List (Nat × ε)) :
    selected p (l ++ l') = selected p l ++ selected p l' := by
  rw [selected, List.map_append, List.filter_append]
  rfl

theorem selected_batch (p : ε → Bool) (n : Nat) (batch : List ε) :
    selected p (batch.map (n, ·)) = batch.filter p := by
  rw [selected, List.map_map]
  exact congrArg _ (List.map_id batch)

/-- No batch has an item left that satisfies `p`. -/
def NonePending (p : ε → Bool) (o : Outbox ε) : Prop := ∀ n, (o.pending n).filter p = []

/-- Of the items that satisfy `p` the last ones posted are left, and in one batch. -/
def InTurn (p : ε → Bool) (o : Outbox ε) : Prop :=
  ∃ n, selected p o.posted = selected p o.written ++ (o.pending n).filter p ∧
    ∀ m, m ≠ n → (o.pending m).filter p = []

variable {p : ε → Bool} {o : Outbox ε}

theorem InTurn.empty : InTurn p (empty : Outbox ε) := ⟨0, rfl, fun _ _ => rfl⟩

/-- **What is written is what was posted first**, in the order of the posts. -/
theorem InTurn.written_first (h : InTurn p o) :
    selected p o.written <+: selected p o.posted := by
  obtain ⟨n, hposted, -⟩ := h
  exact ⟨_, hposted.symm⟩

theorem InTurn.written_eq (h : InTurn p o) (hnone : NonePending p o) :
    selected p o.written = selected p o.posted := by
  obtain ⟨n, hposted, -⟩ := h
  rw [hposted, hnone n, List.append_nil]

/-- A batch posted when nothing is left. -/
theorem InTurn.post (h : InTurn p o) (hnone : NonePending p o) (batch : List ε) :
    InTurn p (o.post batch) := by
  cases batch with
  | nil => exact h
  | cons item rest =>
      rw [post_cons]
      refine ⟨o.next, ?_, fun m hm => ?_⟩
      · dsimp only
        rw [selected_append, selected_batch, h.written_eq hnone, if_pos rfl]
      · dsimp only
        rw [if_neg hm]
        exact hnone m

/-- A batch without such items. -/
theorem InTurn.post_others (h : InTurn p o) (hsound : Sound o) {batch : List ε}
    (hbatch : batch.filter p = []) : InTurn p (o.post batch) := by
  cases batch with
  | nil => exact h
  | cons item rest =>
      obtain ⟨n, hposted, hothers⟩ := h
      have hpending : ∀ m, ((o.post (item :: rest)).pending m).filter p =
          (o.pending m).filter p := by
        intro m
        rw [post_cons]
        dsimp only
        by_cases hm : m = o.next
        · rw [if_pos hm, hbatch, hm, hsound.next_fresh.2.1]
          rfl
        · rw [if_neg hm]
      refine ⟨n, ?_, fun m hm => by rw [hpending, hothers m hm]⟩
      rw [hpending, post_cons]
      dsimp only
      rw [selected_append, selected_batch, hbatch, List.append_nil, hposted]

theorem InTurn.write (h : InTurn p o) (n : Nat) : InTurn p (o.write n) := by
  obtain ⟨k, hposted, hothers⟩ := h
  unfold Outbox.write
  split
  · exact ⟨k, hposted, hothers⟩
  · rename_i item rest hpending
    refine ⟨k, ?_, fun m hm => ?_⟩
    · show selected p o.posted = selected p (o.written ++ [(n, item)]) ++
        List.filter p (if k = n then rest else o.pending k)
      rw [selected_append, show [(n, item)] = [item].map (n, ·) from rfl, selected_batch]
      by_cases hkn : k = n
      · subst hkn
        rw [if_pos rfl, hposted, hpending, List.append_assoc, ← List.filter_append]
        rfl
      · -- the item is of a batch that has none of them
        have hnone := hothers n (Ne.symm hkn)
        rw [hpending] at hnone
        have hitem : [item].filter p = [] := by
          refine List.filter_eq_nil_iff.mpr fun x hx => ?_
          rw [List.mem_singleton.mp hx]
          exact List.filter_eq_nil_iff.mp hnone item List.mem_cons_self
        rw [if_neg hkn, hitem, List.append_nil, hposted]
    · show List.filter p (if m = n then rest else o.pending m) = []
      by_cases hmn : m = n
      · subst hmn
        have hnone := hothers m hm
        rw [hpending] at hnone
        rw [if_pos rfl]
        refine List.filter_eq_nil_iff.mpr fun x hx => ?_
        exact List.filter_eq_nil_iff.mp hnone x (List.mem_cons_of_mem _ hx)
      · rw [if_neg hmn]
        exact hothers m hm

end Outbox

end ConformanceHarness.Lib
