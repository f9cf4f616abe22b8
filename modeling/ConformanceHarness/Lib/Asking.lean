import Mathlib.Data.List.Basic
import Mathlib.Logic.Relation
import Mathlib.Order.WellFounded

/-!
# A client that asks, and a server that answers from a script

The client asks again only after it has been answered, and may leave. For each request the server
performs the next action of its script, which sends one message, or none, or ends the session. The
messages of both pass in the order they are sent.

The client receives what the script sends, in order. It comes to receive all of it, and never waits
for a server that waits for it, exactly if no action that is performed is silent.
-/

namespace ConformanceHarness.Lib.Asking

open Relation (ReflTransGen)

variable {α ω σ μ : Type}

/-- A message of the client. -/
inductive Said (ω : Type) where
  | next
  | done
  /-- A message the server skips. -/
  | other (w : ω)

/-- An action that has been performed: what it has sent, and whether the session goes on. -/
structure Performed (σ μ : Type) where
  session : σ
  sent : List μ
  goesOn : Bool

/-- The server, with the actions that are left. -/
inductive Server (α : Type) where
  | receiving (actions : List α)
  | performing (action : α) (actions : List α)
  | closed

/-- A server and its client. -/
structure State (α ω σ μ : Type) where
  server : Server α
  session : σ
  /-- Ghost: what the server has received. -/
  taken : List (Said ω)
  toServer : List (Said ω)
  toClient : List μ
  /-- Whether the client waits for an answer. -/
  outstanding : Bool
  received : List μ
  left : Bool

/-- Nothing has been said. -/
def State.initial (actions : List α) (session : σ) : State α ω σ μ where
  server := .receiving actions
  session := session
  taken := []
  toServer := []
  toClient := []
  outstanding := false
  received := []
  left := false

section

variable (perform : α → σ → Performed σ μ)

/-- A step of a session that both keep up. -/
inductive Advance : State α ω σ μ → State α ω σ μ → Prop where
  | ask {x : State α ω σ μ} (houtstanding : x.outstanding = false) (hleft : x.left = false) :
      Advance x { x with toServer := x.toServer ++ [.next], outstanding := true }
  | skip {x : State α ω σ μ} {actions : List α} {w : ω} {more : List (Said ω)}
      (hserver : x.server = .receiving actions) (hsaid : x.toServer = .other w :: more) :
      Advance x { x with toServer := more, taken := x.taken ++ [.other w] }
  | next {x : State α ω σ μ} {action : α} {actions : List α} {more : List (Said ω)}
      (hserver : x.server = .receiving (action :: actions)) (hsaid : x.toServer = .next :: more) :
      Advance x { x with
        server := .performing action actions, toServer := more, taken := x.taken ++ [.next] }
  | exhausted {x : State α ω σ μ} {more : List (Said ω)}
      (hserver : x.server = .receiving []) (hsaid : x.toServer = .next :: more) :
      Advance x { x with server := .closed, toServer := more, taken := x.taken ++ [.next] }
  | performed {x : State α ω σ μ} {action : α} {actions : List α}
      (hserver : x.server = .performing action actions) :
      Advance x { x with
        server := if (perform action x.session).goesOn then .receiving actions else .closed
        session := (perform action x.session).session
        toClient := x.toClient ++ (perform action x.session).sent }
  | delivered {x : State α ω σ μ} {m : μ} {more : List μ} (hleft : x.left = false)
      (hsent : x.toClient = m :: more) :
      Advance x { x with
        toClient := more, received := x.received ++ [m], outstanding := false }

/-- A step of a session. -/
inductive Step : State α ω σ μ → State α ω σ μ → Prop where
  | advance {x y : State α ω σ μ} (h : Advance perform x y) : Step x y
  | say {x : State α ω σ μ} (w : ω) (hleft : x.left = false) :
      Step x { x with toServer := x.toServer ++ [.other w] }
  | done {x : State α ω σ μ} (houtstanding : x.outstanding = false) (hleft : x.left = false) :
      Step x { x with toServer := x.toServer ++ [.done], left := true }
  /-- The client closes its channel. -/
  | hangUp {x : State α ω σ μ} : Step x { x with left := true }
  | finished {x : State α ω σ μ} {actions : List α} {more : List (Said ω)}
      (hserver : x.server = .receiving actions) (hsaid : x.toServer = .done :: more) :
      Step x { x with server := .closed, toServer := more, taken := x.taken ++ [.done] }
  /-- Nothing more comes. -/
  | lost {x : State α ω σ μ} {actions : List α} (hserver : x.server = .receiving actions)
      (hsaid : x.toServer = []) (hleft : x.left = true) : Step x { x with server := .closed }

/-- What sessions with a script come to. -/
def Reachable (actions : List α) (session : σ) (x : State α ω σ μ) : Prop :=
  ReflTransGen (Step perform) (.initial actions session) x

end

/-- The client waits for an answer, and the server for a request. -/
def Deadlocked (x : State α ω σ μ) : Prop :=
  x.left = false ∧ x.outstanding = true ∧ x.toClient = [] ∧ x.toServer = [] ∧
    ∃ actions, x.server = .receiving actions

/-! ## Scripts -/

/-- What an action is to the client. -/
inductive Answer (μ : Type) where
  | sends (m : μ)
  | silent
  | ends

section

variable (answer : α → Answer μ)

/-- The actions that are performed, up to the first that ends the session. -/
def performed : List α → List α
  | [] => []
  | action :: actions =>
    match answer action with
    | .ends => []
    | _ => action :: performed actions

/-- What they send. -/
def scripted : List α → List μ
  | [] => []
  | action :: actions =>
    match answer action with
    | .sends m => m :: scripted actions
    | .silent => scripted actions
    | .ends => []

/-- Every action that is performed answers. -/
def Prompt (actions : List α) : Prop :=
  ∀ action ∈ performed answer actions, answer action ≠ .silent

/-- The actions are performed as they are to the client, whatever the state. -/
def Performs (perform : α → σ → Performed σ μ) (answer : α → Answer μ) : Prop :=
  ∀ action session, match answer action with
    | .sends m => ∃ after, perform action session = ⟨after, [m], true⟩
    | .silent => ∃ after, perform action session = ⟨after, [], true⟩
    | .ends => ∃ after, perform action session = ⟨after, [], false⟩

end

/-- The actions the server has still to perform. -/
def Server.actions : Server α → List α
  | .receiving actions => actions
  | .performing action actions => action :: actions
  | .closed => []

/-- What has been received, is on its way, and will be sent. -/
def State.delivery (answer : α → Answer μ) (x : State α ω σ μ) : List μ :=
  x.received ++ x.toClient ++ scripted answer x.server.actions

section

variable {perform : α → σ → Performed σ μ} {answer : α → Answer μ} {action : α} {actions : List α}
  {m : μ} {session : σ} {x y : State α ω σ μ}

theorem scripted_sends (h : answer action = .sends m) :
    scripted answer (action :: actions) = m :: scripted answer actions := by
  rw [scripted, h]

theorem scripted_silent (h : answer action = .silent) :
    scripted answer (action :: actions) = scripted answer actions := by
  rw [scripted, h]

theorem scripted_ends (h : answer action = .ends) : scripted answer (action :: actions) = [] := by
  rw [scripted, h]

theorem performed_cons (h : answer action ≠ .ends) :
    performed answer (action :: actions) = action :: performed answer actions := by
  rw [performed]
  split
  · next hends => exact absurd hends h
  · rfl

theorem Prompt.tail (h : Prompt answer (action :: actions)) (hends : answer action ≠ .ends) :
    Prompt answer actions := by
  intro other hother
  refine h other ?_
  rw [performed_cons hends]
  exact List.mem_cons_of_mem _ hother

theorem Prompt.head (h : Prompt answer (action :: actions)) : answer action ≠ .silent := by
  intro hsilent
  have hends : answer action ≠ .ends := by
    rw [hsilent]
    exact nofun
  refine h action ?_ hsilent
  rw [performed_cons hends]
  exact List.mem_cons_self

/-! ## What is delivered -/

/-- A step of a session that both keep up changes nothing of what is delivered. -/
theorem Advance.delivery (h : Advance perform x y) (hperform : Performs perform answer) :
    y.delivery answer = x.delivery answer ∧ y.left = x.left := by
  cases h with
  | ask _ _ => exact ⟨rfl, rfl⟩
  | skip _ _ => exact ⟨rfl, rfl⟩
  | next hserver _ =>
    -- the action is still to be performed
    refine ⟨?_, rfl⟩
    rw [State.delivery, State.delivery, hserver]
    rfl
  | exhausted hserver _ =>
    refine ⟨?_, rfl⟩
    rw [State.delivery, State.delivery, hserver]
    rfl
  | @performed action actions hserver =>
    refine ⟨?_, rfl⟩
    have hanswer := hperform action x.session
    unfold State.delivery
    rw [hserver]
    -- what an action sends moves from the script to the messages under way
    cases h : answer action with
    | sends m =>
      rw [h] at hanswer
      obtain ⟨after, hafter⟩ := hanswer
      simp [hafter, Server.actions, scripted_sends h]
    | silent =>
      rw [h] at hanswer
      obtain ⟨after, hafter⟩ := hanswer
      simp [hafter, Server.actions, scripted_silent h]
    | ends =>
      rw [h] at hanswer
      obtain ⟨after, hafter⟩ := hanswer
      simp [hafter, Server.actions, scripted_ends h, scripted]
  | delivered _ hsent =>
    -- and from there to the messages received
    refine ⟨?_, rfl⟩
    simp [State.delivery, hsent]

/-- Nothing is delivered that the script does not send; and all of it is, if the client stays. -/
structure InOrder (answer : α → Answer μ) (actions : List α) (x : State α ω σ μ) : Prop where
  begun : x.delivery answer <+: scripted answer actions
  all : x.left = false → x.delivery answer = scripted answer actions
  leaves : .done ∈ x.toServer → x.left = true

theorem InOrder.initial : InOrder answer actions (.initial actions session : State α ω σ μ) where
  begun := List.prefix_refl _
  all := fun _ => rfl
  leaves := fun h => nomatch h

theorem Advance.done (h : Advance perform x y) : .done ∈ y.toServer → .done ∈ x.toServer := by
  intro hdone
  cases h with
  | ask _ _ => simpa using hdone
  | skip _ hsaid =>
    rw [hsaid]
    exact List.mem_cons_of_mem _ hdone
  | next _ hsaid =>
    rw [hsaid]
    exact List.mem_cons_of_mem _ hdone
  | exhausted _ hsaid =>
    rw [hsaid]
    exact List.mem_cons_of_mem _ hdone
  | performed _ => exact hdone
  | delivered _ _ => exact hdone

theorem InOrder.advance (h : InOrder answer actions x) (hperform : Performs perform answer)
    (hstep : Advance perform x y) : InOrder answer actions y := by
  obtain ⟨hdelivery, hleft⟩ := hstep.delivery hperform
  refine ⟨?_, ?_, ?_⟩
  · rw [hdelivery]
    exact h.begun
  · rw [hdelivery, hleft]
    exact h.all
  · rw [hleft]
    exact fun hdone => h.leaves (hstep.done hdone)

/-- The server closes: what it would have sent is not delivered. -/
theorem InOrder.close (h : InOrder answer actions x) {toServer taken : List (Said ω)}
    (hleft : x.left = true) (hsaid : toServer ⊆ x.toServer) :
    InOrder answer actions { x with server := .closed, toServer, taken } where
  begun := by
    refine List.IsPrefix.trans ?_ h.begun
    simp [State.delivery, Server.actions, scripted]
  all := fun hstays => by
    rw [show x.left = false from hstays] at hleft
    exact absurd hleft Bool.false_ne_true
  leaves := fun hdone => h.leaves (hsaid hdone)

theorem InOrder.step (h : InOrder answer actions x) (hperform : Performs perform answer)
    (hstep : Step perform x y) : InOrder answer actions y := by
  cases hstep with
  | advance hstep => exact h.advance hperform hstep
  | say w hleft => exact ⟨h.begun, h.all, fun hdone => h.leaves (by simpa using hdone)⟩
  | done houtstanding hleft =>
    exact ⟨h.begun, fun hstays => absurd hstays (Bool.false_ne_true ∘ Eq.symm), fun _ => rfl⟩
  | hangUp =>
    exact ⟨h.begun, fun hstays => absurd hstays (Bool.false_ne_true ∘ Eq.symm), fun _ => rfl⟩
  | finished hserver hsaid =>
    refine h.close (h.leaves ?_) ?_
    · rw [hsaid]
      exact List.mem_cons_self
    · rw [hsaid]
      exact List.subset_cons_self _ _
  | lost hserver hsaid hleft => exact h.close hleft (List.Subset.refl _)

theorem Reachable.inOrder (h : Reachable perform actions session x)
    (hperform : Performs perform answer) : InOrder answer actions x := by
  induction h with
  | refl => exact .initial
  | tail _ hstep ih => exact ih.step hperform hstep

/-! ## Who waits -/

/-- The client waits only for a request that is on its way, or being answered, or answered. -/
structure Answered (answer : α → Answer μ) (x : State α ω σ μ) : Prop where
  prompt : Prompt answer x.server.actions
  waits : x.outstanding = true → ∀ actions, x.server = .receiving actions →
    .next ∈ x.toServer ∨ x.toClient ≠ []

theorem Answered.not_deadlocked (h : Answered answer x) : ¬ Deadlocked x := by
  rintro ⟨-, houtstanding, hclient, hserver, actions, hreceiving⟩
  rcases h.waits houtstanding actions hreceiving with hnext | hsent
  · rw [hserver] at hnext
    exact nomatch hnext
  · exact hsent hclient

theorem Answered.initial (h : Prompt answer actions) :
    Answered answer (.initial actions session : State α ω σ μ) :=
  ⟨h, fun houtstanding => nomatch houtstanding⟩

theorem Answered.of_closed (h : x.server = .closed) : Answered answer x := by
  refine ⟨?_, ?_⟩
  · rw [h]
    exact fun _ hmem => nomatch hmem
  · rw [h]
    exact fun _ _ hreceiving => nomatch hreceiving

theorem Answered.advance (h : Answered answer x) (hperform : Performs perform answer)
    (hstep : Advance perform x y) : Answered answer y := by
  cases hstep with
  | ask _ _ =>
    refine ⟨h.prompt, fun _ actions _ => Or.inl ?_⟩
    exact List.mem_append_right _ List.mem_cons_self
  | skip hserver hsaid =>
    -- a message that is skipped was not the request
    refine ⟨h.prompt, ?_⟩
    intro houtstanding actions hreceiving
    refine (h.waits houtstanding actions hreceiving).imp_left fun hnext => ?_
    rw [hsaid] at hnext
    exact (List.mem_cons.mp hnext).resolve_left fun h => nomatch h
  | next hserver hsaid =>
    have hprompt := h.prompt
    rw [hserver] at hprompt
    exact ⟨hprompt, fun _ _ hreceiving => nomatch hreceiving⟩
  | exhausted _ _ => exact .of_closed rfl
  | @performed action actions hserver =>
    -- no action that is performed is silent, so the request is answered or the server closes
    have hanswer := hperform action x.session
    have hprompt := h.prompt
    rw [hserver] at hprompt
    cases h : answer action with
    | sends m =>
      rw [h] at hanswer
      obtain ⟨after, hafter⟩ := hanswer
      have hends : answer action ≠ .ends := by
        rw [h]
        exact nofun
      rw [hafter]
      refine ⟨hprompt.tail hends, fun _ _ _ => Or.inr ?_⟩
      exact List.append_ne_nil_of_right_ne_nil _ (List.cons_ne_nil _ _)
    | silent => exact absurd h hprompt.head
    | ends =>
      rw [h] at hanswer
      obtain ⟨after, hafter⟩ := hanswer
      refine .of_closed ?_
      simp [hafter]
  | delivered _ hsent => exact ⟨h.prompt, fun houtstanding => nomatch houtstanding⟩

theorem Answered.step (h : Answered answer x) (hperform : Performs perform answer)
    (hstep : Step perform x y) : Answered answer y := by
  cases hstep with
  | advance hstep => exact h.advance hperform hstep
  | say w hleft =>
    refine ⟨h.prompt, fun houtstanding actions hreceiving => ?_⟩
    exact (h.waits houtstanding actions hreceiving).imp_left (List.mem_append_left _)
  | done houtstanding hleft =>
    refine ⟨h.prompt, fun hwaits actions hreceiving => ?_⟩
    exact (h.waits hwaits actions hreceiving).imp_left (List.mem_append_left _)
  | hangUp => exact ⟨h.prompt, h.waits⟩
  | finished _ _ => exact .of_closed rfl
  | lost _ _ _ => exact .of_closed rfl

theorem Reachable.answered (h : Reachable perform actions session x)
    (hperform : Performs perform answer) (hprompt : Prompt answer actions) : Answered answer x := by
  induction h with
  | refl => exact .initial hprompt
  | tail _ hstep ih => exact ih.step hperform hstep

/-! ## Where a session comes to -/

/-- Neither can do more to keep up the session, and the client has not left. -/
def Resting (perform : α → σ → Performed σ μ) (x : State α ω σ μ) : Prop :=
  x.left = false ∧ ∀ y, ¬ Advance perform x y

/-- A session that rests has delivered everything. -/
theorem Resting.received (h : Resting perform x) (horder : InOrder answer actions x)
    (hdead : ¬ Deadlocked x) : x.received = scripted answer actions := by
  obtain ⟨hleft, hstep⟩ := h
  -- a client that rests has asked
  have houtstanding : x.outstanding = true := by
    by_contra hidle
    exact hstep _ (.ask (Bool.eq_false_iff.mpr hidle) hleft)
  -- and has read every message
  have hclient : x.toClient = [] := by
    cases hsent : x.toClient with
    | nil => rfl
    | cons m more => exact absurd (.delivered hleft hsent) (hstep _)
  -- a server that waits for the next request would be deadlocked with it
  have hclosed : x.server = .closed := by
    cases hserver : x.server with
    | closed => rfl
    | performing action actions => exact absurd (.performed hserver) (hstep _)
    | receiving actions =>
      cases hsaid : x.toServer with
      | nil => exact absurd ⟨hleft, houtstanding, hclient, hsaid, actions, hserver⟩ hdead
      | cons said more =>
        cases said with
        | next =>
          cases actions with
          | nil => exact absurd (.exhausted hserver hsaid) (hstep _)
          | cons action actions => exact absurd (.next hserver hsaid) (hstep _)
        | done =>
          have hleaves := horder.leaves (hsaid ▸ List.mem_cons_self)
          exact absurd (hleft.symm.trans hleaves) Bool.false_ne_true
        | other w => exact absurd (.skip hserver hsaid) (hstep _)
  -- so nothing is left of the script
  have hdelivery := horder.all hleft
  rw [State.delivery, hclient, hclosed] at hdelivery
  simpa [Server.actions, scripted] using hdelivery

/-- What is left to do. -/
def State.weight (x : State α ω σ μ) : Nat :=
  4 * x.server.actions.length + x.toServer.length + 3 * x.toClient.length +
    if x.outstanding then 0 else 2

theorem Advance.weight (h : Advance perform x y) (hperform : Performs perform answer) :
    y.weight < x.weight := by
  cases h with
  | ask houtstanding _ =>
    simp only [State.weight, houtstanding, List.length_append, List.length_singleton]
    simp
    omega
  | skip _ hsaid => simp [State.weight, hsaid]
  | next hserver hsaid => simp [State.weight, hserver, hsaid, Server.actions]
  | exhausted hserver hsaid => simp [State.weight, hserver, hsaid, Server.actions]
  | @performed action actions hserver =>
    have hanswer := hperform action x.session
    -- An action sends one message at most.
    cases h : answer action with
    | sends m =>
      rw [h] at hanswer
      obtain ⟨after, hafter⟩ := hanswer
      simp [State.weight, hserver, hafter, Server.actions]
      omega
    | silent =>
      rw [h] at hanswer
      obtain ⟨after, hafter⟩ := hanswer
      simp [State.weight, hserver, hafter, Server.actions]
    | ends =>
      rw [h] at hanswer
      obtain ⟨after, hafter⟩ := hanswer
      simp [State.weight, hserver, hafter, Server.actions]
  | delivered _ hsent =>
    simp only [State.weight, hsent, List.length_cons, Bool.false_eq_true, if_false]
    omega

/-- A client that stays receives everything. -/
theorem arrives (hperform : Performs perform answer) (hleft : x.left = false)
    (horder : InOrder answer actions x) (hanswered : Answered answer x) :
    ∃ y, ReflTransGen (Advance perform) x y ∧ y.received = scripted answer actions := by
  induction hweight : x.weight using Nat.strong_induction_on generalizing x with
  | _ n ih =>
    by_cases hstep : ∃ y, Advance perform x y
    · obtain ⟨y, hstep⟩ := hstep
      have hstays := (hstep.delivery hperform).2.trans hleft
      obtain ⟨z, hreach, hreceived⟩ := ih y.weight (hweight ▸ hstep.weight hperform) hstays
        (horder.advance hperform hstep) (hanswered.advance hperform hstep) rfl
      exact ⟨z, .head hstep hreach, hreceived⟩
    · have hrests : Resting perform x := ⟨hleft, not_exists.mp hstep⟩
      exact ⟨x, .refl, hrests.received horder hanswered.not_deadlocked⟩

/-- The script is delivered: what has been received is a beginning of it, nobody waits for one who
waits for him, a session that rests has delivered all, and one whose client has not left can come
there. -/
structure Delivers (perform : α → σ → Performed σ μ) (answer : α → Answer μ) (actions : List α)
    (x : State α ω σ μ) : Prop where
  inOrder : x.received <+: scripted answer actions
  answered : ¬ Deadlocked x
  complete : Resting perform x → x.received = scripted answer actions
  arrives : x.left = false →
    ∃ y, ReflTransGen (Advance perform) x y ∧ y.received = scripted answer actions

/-! ## An action that does not answer -/

/-- A server and a client between two requests. -/
def State.idle (actions : List α) (session : σ) (taken : List (Said ω)) (received : List μ) :
    State α ω σ μ where
  server := .receiving actions
  session := session
  taken := taken
  toServer := []
  toClient := []
  outstanding := false
  received := received
  left := false

/-- The next action is asked for. -/
theorem idle_asks {taken : List (Said ω)} {received : List μ} :
    ReflTransGen (Step perform) (.idle (action :: actions) session taken received)
      { State.idle actions session (taken ++ [.next]) received with
        server := .performing action actions
        outstanding := true } :=
  .head (.advance (.ask rfl rfl)) (.single (.advance (.next rfl rfl)))

/-- A silent action leaves both waiting. -/
theorem deadlocks (hperform : Performs perform answer) (h : ¬ Prompt answer actions)
    (session : σ) (taken : List (Said ω)) (received : List μ) :
    ∃ x, ReflTransGen (Step perform) (.idle actions session taken received) x ∧ Deadlocked x := by
  induction actions generalizing session taken received with
  | nil => exact absurd (fun _ h => nomatch h) h
  | cons action actions ih =>
    have hasks := @idle_asks _ _ _ _ perform action actions session taken received
    have hanswer := hperform action session
    have hperformed := hasks.tail (.advance (.performed rfl))
    cases hact : answer action with
    | sends m =>
      rw [hact] at hanswer
      obtain ⟨after, hafter⟩ := hanswer
      have hends : answer action ≠ .ends := by
        rw [hact]
        exact nofun
      -- the action answers, so a later one is silent
      have htail : ¬ Prompt answer actions := by
        intro hprompt
        refine h fun other hother => ?_
        rw [performed_cons hends] at hother
        rcases List.mem_cons.mp hother with rfl | hother
        · rw [hact]
          exact nofun
        · exact hprompt other hother
      obtain ⟨x, hreach, hdead⟩ := ih htail after (taken ++ [.next]) (received ++ [m])
      -- the message arrives, and the session is idle again
      have hdelivered := hperformed.tail (.advance (@Advance.delivered _ ω _ _ perform _ m [] rfl
        (by simp [State.idle, hafter])))
      refine ⟨x, hdelivered.trans ?_, hdead⟩
      simpa [State.idle, hafter] using hreach
    | silent =>
      -- the request is taken and never answered
      rw [hact] at hanswer
      obtain ⟨after, hafter⟩ := hanswer
      refine ⟨_, hperformed, rfl, rfl, ?_, rfl, actions, ?_⟩
      · simp [State.idle, hafter]
      · simp [State.idle, hafter]
    | ends =>
      -- nothing after it is performed
      refine absurd (fun other hother => ?_) h
      rw [performed, hact] at hother
      exact nomatch hother

/-- **A script is delivered exactly if every action that is performed answers.** -/
theorem delivers_iff (hperform : Performs perform answer) :
    (∀ x : State α ω σ μ, Reachable perform actions session x → Delivers perform answer actions x) ↔
      Prompt answer actions := by
  constructor
  · intro h
    by_contra hsilent
    obtain ⟨x, hreach, hdead⟩ := @deadlocks _ ω _ _ _ _ _ hperform hsilent session [] []
    exact (h x hreach).answered hdead
  · intro hprompt x hreach
    have horder := hreach.inOrder hperform
    have hanswered := hreach.answered hperform hprompt
    refine ⟨?_, hanswered.not_deadlocked, ?_, ?_⟩
    · refine List.IsPrefix.trans ?_ horder.begun
      rw [State.delivery, List.append_assoc]
      exact List.prefix_append _ _
    · exact fun hrests => hrests.received horder hanswered.not_deadlocked
    · exact fun hleft => arrives hperform hleft horder hanswered

end

end ConformanceHarness.Lib.Asking
