import YAMemcached.Session.Basic
import YAMemcached.Util.Transition

/-!
This module contains what a `ServerThread` does with its sessions: where they are, and which connections
they serve. A session is known by its number, which stands for the pointer.
-/

namespace YAMemcached

/--
Where `threadProc` is: at an entry of the backlog, or at the events of one call of `epoll_wait` that
are left.
-/
inductive LoopPhase where
  | backlog (entry : Nat)
  | events (pending : List Nat)
deriving DecidableEq, Repr

/--
`epoll` are the sessions that are registered for the client sockets that are open. `closedTwice` says
that `close` was called for a socket that was not open.
-/
structure ServerThread where
  sessionPool : List Nat
  sessionBacklog : List Nat
  socket : Nat → Nat
  epoll : Nat → Option Nat
  opened : Nat → Bool
  closedTwice : Bool
  phase : LoopPhase

/--
What happens to a `ServerThread`: a call of `addSession` for a socket that `accept` returned, with the
session that it pops and the result of `epoll_ctl`, and the steps of `threadProc` with the results of
`process` and `epoll_wait`.
-/
inductive LoopStep where
  | addSession (clientSocket : Nat) (popped : Option Nat) (added : Bool)
  | backlog (res : SessionResult)
  | wait (sockets : List Nat)
  | event (res : SessionResult)
  | endCycle
deriving DecidableEq, Repr

namespace ServerThread

def close (s : ServerThread) (socket : Nat) : ServerThread :=
  if s.opened socket then
    { s with
      opened := Function.update s.opened socket false
      epoll := Function.update s.epoll socket none }
  else
    { s with closedTwice := true }

def recycle (s : ServerThread) (pSession : Nat) : ServerThread :=
  let s := s.close (s.socket pSession)
  { s with sessionPool := s.sessionPool ++ [pSession] }

/--
`addSession` with the caller, which closes the socket if it fails.
-/
def addSession (s : ServerThread) (clientSocket : Nat) (popped : Option Nat) (added : Bool)
    : ServerThread :=
  match popped with
  | none => s
  | some pSession =>
    let s := { s with
      sessionPool := s.sessionPool.erase pSession
      socket := Function.update s.socket pSession clientSocket }
    if added then
      { s with
        opened := Function.update s.opened clientSocket true
        epoll := Function.update s.epoll clientSocket (some pSession) }
    else
      s

def backlog (s : ServerThread) (entry pSession : Nat) (res : SessionResult) : ServerThread :=
  match res with
  | .FAILURE =>
    let s := s.recycle pSession
    { s with sessionBacklog := s.sessionBacklog.eraseIdx entry }
  | .SUCCESS => { s with sessionBacklog := s.sessionBacklog.eraseIdx entry }
  | .POSTPONED => { s with phase := .backlog (entry + 1) }

def event (s : ServerThread) (pSession : Nat) (res : SessionResult) : ServerThread :=
  match res with
  | .FAILURE => s.recycle pSession
  | .POSTPONED => { s with sessionBacklog := s.sessionBacklog ++ [pSession] }
  | .SUCCESS => s

/--
The steps that are possible and what they do. A pool is a bag: any session of it may be popped. `epoll`
reports some of the sockets in its set, each of them once.
-/
inductive Step : ServerThread → LoopStep → ServerThread → Prop where
  | addSession (hopened : s.opened clientSocket = false)
      (hpopped : ∀ pSession, popped = some pSession → pSession ∈ s.sessionPool)
      (hempty : popped = none → s.sessionPool = [])
      : Step s (.addSession clientSocket popped added) (s.addSession clientSocket popped added)
  | backlog (hphase : s.phase = .backlog entry) (hentry : s.sessionBacklog[entry]? = some pSession)
      : Step s (.backlog res) (s.backlog entry pSession res)
  | wait (hphase : s.phase = .backlog s.sessionBacklog.length) (hnodup : sockets.Nodup)
      (hepoll : ∀ socket ∈ sockets, (s.epoll socket).isSome = true)
      : Step s (.wait sockets) { s with phase := .events (sockets.filterMap s.epoll) }
  | event (hphase : s.phase = .events (pSession :: pending))
      : Step s (.event res) ({ s with phase := .events pending }.event pSession res)
  | endCycle (hphase : s.phase = .events [])
      : Step s .endCycle { s with phase := .backlog 0 }

def Started (s : ServerThread) : Prop :=
  s.sessionPool.Nodup ∧ s.sessionBacklog = [] ∧ (∀ socket, s.epoll socket = none)
    ∧ s.closedTwice = false ∧ s.phase = .backlog 0

/--
Who owns the sessions: each is at most once in the pool and the backlog, one in the pool is not
registered for an open connection, none is registered for two connections, and no socket is closed twice.
-/
structure Owned (s : ServerThread) : Prop where
  nodup : (s.sessionPool ++ s.sessionBacklog).Nodup
  pooled : ∀ pSession ∈ s.sessionPool, ∀ socket, s.epoll socket ≠ some pSession
  serves : ∀ pSession socket socket', s.epoll socket = some pSession →
    s.epoll socket' = some pSession → socket = socket'
  closed : s.closedTwice = false

/--
An event for a session that is in the backlog comes out with success.
-/
def Undisturbed (s : ServerThread) : LoopStep → Prop
  | .event res => ∀ pSession pending, s.phase = .events (pSession :: pending) →
    pSession ∈ s.sessionBacklog → res = .SUCCESS
  | _ => True

def pending (s : ServerThread) : List Nat :=
  match s.phase with
  | .backlog _ => []
  | .events pending => pending

/--
What holds between two steps: a session with an open connection knows its socket, and the sessions in
the backlog and those with an event have an open connection.
-/
structure Inv (s : ServerThread) : Prop extends Owned s where
  registered : ∀ pSession socket, s.epoll socket = some pSession →
    s.socket pSession = socket ∧ s.opened socket = true
  backlogged : ∀ pSession ∈ s.sessionBacklog, s.epoll (s.socket pSession) = some pSession
  pending : ∀ pSession ∈ s.pending, s.epoll (s.socket pSession) = some pSession
  pending_nodup : s.pending.Nodup

variable {s s' : ServerThread} {pSession : Nat}

theorem Inv.started (h : s.Started) : s.Inv where
  nodup := by
    rw [h.2.1, List.append_nil]
    exact h.1
  pooled := by simp [h.2.2.1]
  serves := by simp [h.2.2.1]
  closed := h.2.2.2.1
  registered := by simp [h.2.2.1]
  backlogged := by simp [h.2.1]
  pending := by simp [ServerThread.pending, h.2.2.2.2]
  pending_nodup := by simp [ServerThread.pending, h.2.2.2.2]

theorem Inv.recycle_eq (h : s.Inv) (hp : s.epoll (s.socket pSession) = some pSession)
    : s.recycle pSession = { s with
        sessionPool := s.sessionPool ++ [pSession]
        opened := Function.update s.opened (s.socket pSession) false
        epoll := Function.update s.epoll (s.socket pSession) none } := by
  have ⟨_, hopened⟩ := h.registered pSession _ hp
  unfold recycle close
  rw [if_pos hopened]

theorem Inv.recycle (h : s.Inv) (hp : s.epoll (s.socket pSession) = some pSession)
    (hbacklog : pSession ∉ s.sessionBacklog) (hpending : pSession ∉ s.pending)
    : (s.recycle pSession).Inv := by
  have hpool : pSession ∉ s.sessionPool := fun hmem => h.pooled pSession hmem _ hp
  have hother (pSession' socket : Nat)
      (hepoll : Function.update s.epoll (s.socket pSession) none socket = some pSession')
      : socket ≠ s.socket pSession ∧ s.epoll socket = some pSession' ∧ pSession' ≠ pSession := by
    have hne : socket ≠ s.socket pSession := by
      intro heq
      rw [heq, Function.update_self] at hepoll
      nomatch hepoll
    rw [Function.update_of_ne hne] at hepoll
    refine ⟨hne, hepoll, ?_⟩
    intro heq
    subst heq
    exact hne (h.registered _ _ hepoll).1.symm
  have hkept (pSession' : Nat) (hne : pSession' ≠ pSession)
      (hepoll : s.epoll (s.socket pSession') = some pSession')
      : Function.update s.epoll (s.socket pSession) none (s.socket pSession') = some pSession' := by
    rw [Function.update_of_ne]
    . exact hepoll
    . intro heq
      rw [heq, hp, Option.some.injEq] at hepoll
      exact hne hepoll.symm
  rw [h.recycle_eq hp]
  constructor
  . constructor
    . dsimp only
      rw [List.append_assoc, List.singleton_append]
      rw [List.perm_middle.nodup_iff, List.nodup_cons, List.mem_append]
      exact ⟨fun hmem => hmem.elim hpool hbacklog, h.nodup⟩
    . intro pSession' hmem socket hepoll
      have ⟨_, hold, hne⟩ := hother pSession' socket hepoll
      rw [List.mem_append, List.mem_singleton] at hmem
      exact h.pooled pSession' (hmem.resolve_right hne) socket hold
    . intro pSession' socket socket' hepoll hepoll'
      exact h.serves pSession' _ _ (hother _ _ hepoll).2.1 (hother _ _ hepoll').2.1
    . exact h.closed
  . intro pSession' socket hepoll
    have ⟨hne, hold, _⟩ := hother pSession' socket hepoll
    have ⟨hsocket, hopened⟩ := h.registered pSession' socket hold
    refine ⟨hsocket, ?_⟩
    dsimp only
    rw [Function.update_of_ne hne]
    exact hopened
  . intro pSession' hmem
    apply hkept pSession' _ (h.backlogged pSession' hmem)
    intro heq
    subst heq
    exact hbacklog hmem
  . intro pSession' hmem
    apply hkept pSession' _ (h.pending pSession' hmem)
    intro heq
    subst heq
    exact hpending hmem
  . exact h.pending_nodup

theorem Inv.shrink (h : s.Inv) {entries : List Nat} (hsub : entries.Sublist s.sessionBacklog)
    : { s with sessionBacklog := entries }.Inv where
  nodup := h.nodup.sublist (hsub.append_left s.sessionPool)
  pooled := h.pooled
  serves := h.serves
  closed := h.closed
  registered := h.registered
  backlogged pSession hmem := h.backlogged pSession (hsub.subset hmem)
  pending := h.pending
  pending_nodup := h.pending_nodup

theorem Inv.setPhase (h : s.Inv) (phase : LoopPhase)
    (hpending : ∀ pSession ∈ { s with phase := phase }.pending,
      s.epoll (s.socket pSession) = some pSession)
    (hnodup : { s with phase := phase }.pending.Nodup) : { s with phase := phase }.Inv where
  nodup := h.nodup
  pooled := h.pooled
  serves := h.serves
  closed := h.closed
  registered := h.registered
  backlogged := h.backlogged
  pending := hpending
  pending_nodup := hnodup

theorem Inv.addSession (h : s.Inv) (hopened : s.opened clientSocket = false)
    (hpopped : pSession ∈ s.sessionPool) (added : Bool)
    : (s.addSession clientSocket (some pSession) added).Inv := by
  have hnodup := h.nodup
  have hpool := List.perm_cons_erase hpopped
  rw [(hpool.append_right s.sessionBacklog).nodup_iff, List.cons_append, List.nodup_cons] at hnodup
  rw [List.mem_append, not_or] at hnodup
  have hfree := h.pooled pSession hpopped
  have hsocket (pSession' socket : Nat) (hepoll : s.epoll socket = some pSession')
      : Function.update s.socket pSession clientSocket pSession' = s.socket pSession' := by
    apply Function.update_of_ne
    intro heq
    subst heq
    exact hfree socket hepoll
  have hold (pSession' socket : Nat) (hepoll : s.epoll socket = some pSession')
      : socket ≠ clientSocket := by
    intro heq
    subst heq
    have hopen := (h.registered _ _ hepoll).2
    rw [hopened] at hopen
    nomatch hopen
  have hnew (pSession' socket : Nat)
      (hepoll : Function.update s.epoll clientSocket (some pSession) socket = some pSession')
      : (socket = clientSocket ∧ pSession' = pSession)
        ∨ (socket ≠ clientSocket ∧ s.epoll socket = some pSession' ∧ pSession' ≠ pSession) := by
    rw [Function.update_apply] at hepoll
    split at hepoll
    . next heq =>
      cases hepoll
      exact .inl ⟨heq, rfl⟩
    . next hne =>
      refine .inr ⟨hne, hepoll, ?_⟩
      intro heq
      subst heq
      exact hfree socket hepoll
  unfold ServerThread.addSession
  dsimp only
  split
  . constructor
    . constructor
      . exact hnodup.2
      . intro pSession' hmem socket hepoll
        obtain ⟨_, heq⟩ | ⟨_, hepoll, _⟩ := hnew pSession' socket hepoll
        . subst heq
          exact hnodup.1.1 hmem
        . exact h.pooled pSession' (List.mem_of_mem_erase hmem) socket hepoll
      . intro pSession' socket socket' hepoll hepoll'
        obtain ⟨hsocket, heq⟩ | ⟨_, hepoll, hne⟩ := hnew pSession' socket hepoll
        . obtain ⟨hsocket', _⟩ | ⟨_, _, hne⟩ := hnew pSession' socket' hepoll'
          . rw [hsocket, hsocket']
          . exact absurd heq hne
        . obtain ⟨_, heq⟩ | ⟨_, hepoll', _⟩ := hnew pSession' socket' hepoll'
          . exact absurd heq hne
          . exact h.serves pSession' socket socket' hepoll hepoll'
      . exact h.closed
    . intro pSession' socket hepoll
      dsimp only
      obtain ⟨hsocket, heq⟩ | ⟨hne, hepoll, _⟩ := hnew pSession' socket hepoll
      . rw [hsocket, heq, Function.update_self, Function.update_self]
        exact ⟨rfl, rfl⟩
      . rw [hsocket pSession' socket hepoll, Function.update_of_ne hne]
        exact h.registered pSession' socket hepoll
    . intro pSession' hmem
      have hepoll := h.backlogged pSession' hmem
      dsimp only
      rw [hsocket pSession' _ hepoll, Function.update_of_ne (hold pSession' _ hepoll)]
      exact hepoll
    . intro pSession' hmem
      have hepoll := h.pending pSession' hmem
      dsimp only
      rw [hsocket pSession' _ hepoll, Function.update_of_ne (hold pSession' _ hepoll)]
      exact hepoll
    . exact h.pending_nodup
  . constructor
    . constructor
      . exact hnodup.2
      . intro pSession' hmem
        exact h.pooled pSession' (List.mem_of_mem_erase hmem)
      . exact h.serves
      . exact h.closed
    . intro pSession' socket hepoll
      dsimp only
      rw [hsocket pSession' socket hepoll]
      exact h.registered pSession' socket hepoll
    . intro pSession' hmem
      have hepoll := h.backlogged pSession' hmem
      dsimp only
      rw [hsocket pSession' _ hepoll]
      exact hepoll
    . intro pSession' hmem
      have hepoll := h.pending pSession' hmem
      dsimp only
      rw [hsocket pSession' _ hepoll]
      exact hepoll
    . exact h.pending_nodup

theorem sessionPool_recycle (s : ServerThread) (pSession : Nat)
    : (s.recycle pSession).sessionPool = s.sessionPool ++ [pSession] := by
  unfold ServerThread.recycle close
  dsimp only
  split <;> rfl

theorem sessionBacklog_recycle (s : ServerThread) (pSession : Nat)
    : (s.recycle pSession).sessionBacklog = s.sessionBacklog := by
  unfold ServerThread.recycle close
  dsimp only
  split <;> rfl

theorem recycle_backlog (s : ServerThread) (pSession : Nat) (entries : List Nat)
    : { s.recycle pSession with sessionBacklog := entries }
        = { s with sessionBacklog := entries }.recycle pSession := by
  unfold ServerThread.recycle close
  dsimp only
  split <;> rfl

theorem Inv.backlog (h : s.Inv) (hphase : s.phase = .backlog entry)
    (hentry : s.sessionBacklog[entry]? = some pSession) (res : SessionResult)
    : (s.backlog entry pSession res).Inv := by
  have ⟨hlt, hget⟩ := List.getElem?_eq_some_iff.mp hentry
  have hmem : pSession ∈ s.sessionBacklog := by
    rw [← hget]
    exact List.getElem_mem hlt
  have hshrunk := h.shrink (List.eraseIdx_sublist s.sessionBacklog entry)
  have hgone : pSession ∉ s.sessionBacklog.eraseIdx entry := by
    rw [List.mem_eraseIdx_iff_getElem]
    intro ⟨i, hi, hne, heq⟩
    apply hne
    rw [← hget, List.Nodup.getElem_inj_iff h.nodup.of_append_right] at heq
    exact heq
  have hnone : s.pending = [] := by
    unfold ServerThread.pending
    rw [hphase]
  cases res with
  | FAILURE =>
    unfold ServerThread.backlog
    dsimp only
    rw [sessionBacklog_recycle]
    rw [recycle_backlog]
    apply hshrunk.recycle (h.backlogged pSession hmem) hgone
    change pSession ∉ s.pending
    rw [hnone]
    simp
  | SUCCESS => exact hshrunk
  | POSTPONED =>
    apply h.setPhase
    . simp [ServerThread.pending]
    . simp [ServerThread.pending]

theorem Inv.event (h : s.Inv) {rest : List Nat} (hphase : s.phase = .events (pSession :: rest))
    (res : SessionResult) (hres : pSession ∈ s.sessionBacklog → res = .SUCCESS)
    : ({ s with phase := .events rest }.event pSession res).Inv := by
  have hpending : s.pending = pSession :: rest := by
    unfold ServerThread.pending
    rw [hphase]
  have hopen := h.pending
  have hnodup := h.pending_nodup
  rw [hpending] at hopen hnodup
  rw [List.nodup_cons] at hnodup
  have hrest := h.setPhase (.events rest) (fun pSession' hmem => hopen pSession' (.tail _ hmem)) hnodup.2
  have hfirst := hopen pSession (.head _)
  cases res with
  | SUCCESS => exact hrest
  | FAILURE =>
    apply hrest.recycle hfirst
    . intro hmem
      nomatch hres hmem
    . exact hnodup.1
  | POSTPONED =>
    have hbacklog : pSession ∉ s.sessionBacklog := fun hmem => nomatch hres hmem
    have hpool : pSession ∉ s.sessionPool := fun hmem => h.pooled pSession hmem _ hfirst
    refine { hrest with nodup := ?_, backlogged := ?_ }
    . change (s.sessionPool ++ (s.sessionBacklog ++ [pSession])).Nodup
      rw [← List.append_assoc, List.perm_append_comm.nodup_iff, List.singleton_append]
      rw [List.nodup_cons, List.mem_append]
      exact ⟨fun hmem => hmem.elim hpool hbacklog, h.nodup⟩
    . intro pSession' hmem
      change pSession' ∈ s.sessionBacklog ++ [pSession] at hmem
      rw [List.mem_append, List.mem_singleton] at hmem
      cases hmem with
      | inl hmem => exact h.backlogged pSession' hmem
      | inr heq =>
        rw [heq]
        exact hfirst

theorem Inv.wait (h : s.Inv) {sockets : List Nat} (hnodup : sockets.Nodup)
    : { s with phase := .events (sockets.filterMap s.epoll) }.Inv := by
  apply h.setPhase
  . intro pSession hmem
    change pSession ∈ sockets.filterMap s.epoll at hmem
    rw [List.mem_filterMap] at hmem
    have ⟨socket, _, hepoll⟩ := hmem
    rw [(h.registered pSession socket hepoll).1]
    exact hepoll
  . change (sockets.filterMap s.epoll).Nodup
    apply hnodup.filterMap
    intro socket socket' pSession hepoll hepoll'
    exact h.serves pSession socket socket' hepoll hepoll'

theorem Inv.step (h : s.Inv) (hstep : Step s l s') (hundisturbed : s.Undisturbed l) : s'.Inv := by
  cases hstep with
  | addSession hopened hpopped hempty =>
    rename_i popped _ added
    cases popped with
    | none => exact h
    | some pSession => exact h.addSession hopened (hpopped pSession rfl) added
  | backlog hphase hentry => exact h.backlog hphase hentry _
  | wait hphase hnodup hepoll => exact h.wait hnodup
  | event hphase => exact h.event hphase _ (hundisturbed _ _ hphase)
  | endCycle hphase =>
    apply h.setPhase
    . simp [ServerThread.pending]
    . simp [ServerThread.pending]

theorem Owned.undisturbed (h : s'.Owned) (hstep : Step s l s') : s.Undisturbed l := by
  cases hstep with
  | event hphase =>
    rename_i res pSession _
    intro pSession' pending' hphase' hmem
    rw [hphase] at hphase'
    cases hphase'
    have hnodup := h.nodup
    cases res with
    | SUCCESS => rfl
    | POSTPONED =>
      change (s.sessionPool ++ (s.sessionBacklog ++ [pSession])).Nodup at hnodup
      have hbacklog := hnodup.of_append_right
      rw [List.nodup_append] at hbacklog
      exact absurd rfl (hbacklog.2.2 pSession hmem pSession (by simp))
    | FAILURE =>
      change ((ServerThread.recycle _ pSession).sessionPool
        ++ (ServerThread.recycle _ pSession).sessionBacklog).Nodup at hnodup
      rw [sessionPool_recycle, sessionBacklog_recycle, List.nodup_append] at hnodup
      exact absurd rfl (hnodup.2.2 pSession (by simp) pSession hmem)
  | _ => trivial

/--
While no event for a session in the backlog fails or is postponed, every session has one owner, and the
next step keeps it like that exactly if it is not such an event.
-/
theorem owned_iff (s : ServerThread)
    (h : Transition.Reachable Started (fun s l s' => Step s l s' ∧ s.Undisturbed l) s)
    : s.Owned ∧ ∀ l s', Step s l s' → (s'.Owned ↔ s.Undisturbed l) := by
  have hinv : s.Inv := by
    apply h.invariant
    . intro s hs
      exact Inv.started hs
    . intro s l s' hinv ⟨hstep, hundisturbed⟩
      exact hinv.step hstep hundisturbed
  refine ⟨hinv.toOwned, ?_⟩
  intro l s' hstep
  constructor
  . intro howned
    exact howned.undisturbed hstep
  . intro hundisturbed
    exact (hinv.step hstep hundisturbed).toOwned

def oneSession : ServerThread where
  sessionPool := [0]
  sessionBacklog := []
  socket _ := 0
  epoll _ := none
  opened _ := false
  closedTwice := false
  phase := .backlog 0

theorem oneSession_started : oneSession.Started := by
  simp [Started, oneSession]

def serving (entries : List Nat) (phase : LoopPhase) : ServerThread :=
  { oneSession.addSession 7 (some 0) true with sessionBacklog := entries, phase := phase }

def Follows (step : ServerThread → LoopStep → ServerThread → Prop) : Prop :=
  ∀ s l s', Step s l s' → s.Undisturbed l → step s l s'

theorem serving_reachable {step : ServerThread → LoopStep → ServerThread → Prop} (hstep : Follows step)
    : Transition.Reachable Started step (serving [] (.backlog 0)) := by
  apply Transition.Reachable.step oneSession (.addSession 7 (some 0) true)
  . apply Transition.Reachable.init
    exact oneSession_started
  . refine hstep _ (.addSession 7 (some 0) true) _ ?_ trivial
    apply Step.addSession
    . rfl
    . intro pSession heq
      cases heq
      exact .head _
    . nofun

theorem serving_wait {step : ServerThread → LoopStep → ServerThread → Prop} (hstep : Follows step)
    (h : Transition.Reachable Started step (serving entries (.backlog entries.length)))
    : Transition.Reachable Started step (serving entries (.events [0])) := by
  apply Transition.Reachable.step _ (.wait [7]) _ h
  refine hstep _ (.wait [7]) _ ?_ trivial
  apply Step.wait
  . rfl
  . exact List.nodup_singleton 7
  . intro socket hmem
    rw [List.mem_singleton] at hmem
    rw [hmem]
    rfl

theorem serving_postponed {step : ServerThread → LoopStep → ServerThread → Prop} (hstep : Follows step)
    (hevent : step (serving entries (.events [0])) (.event .POSTPONED) (serving (entries ++ [0]) (.events [])))
    (h : Transition.Reachable Started step (serving entries (.events [0])))
    : Transition.Reachable Started step (serving (entries ++ [0]) (.backlog 0)) := by
  apply Transition.Reachable.step (serving (entries ++ [0]) (.events [])) .endCycle
  . exact .step _ (.event .POSTPONED) _ h hevent
  . exact hstep _ .endCycle _ (Step.endCycle rfl) trivial

theorem serving_pass {step : ServerThread → LoopStep → ServerThread → Prop} (hstep : Follows step)
    (h : Transition.Reachable Started step (serving [0] (.backlog 0)))
    : Transition.Reachable Started step (serving [0] (.backlog 1)) :=
  .step _ (.backlog .POSTPONED) _ h (hstep _ (.backlog .POSTPONED) _ (Step.backlog rfl rfl) trivial)

/--
There is an event for the session while it is in the backlog, where an event and a pass left it.
-/
theorem owned_iff_serving
    : Step (serving [] (.events [0])) (.event .POSTPONED) (serving [0] (.events []))
        ∧ Step (serving [0] (.backlog 0)) (.backlog .POSTPONED) (serving [0] (.backlog 1))
        ∧ (serving [0] (.events [0])).Owned
        ∧ ∀ l s', Step (serving [0] (.events [0])) l s' →
          (s'.Owned ↔ (serving [0] (.events [0])).Undisturbed l) := by
  refine ⟨Step.event rfl, Step.backlog rfl rfl, ?_⟩
  apply owned_iff
  have hstep : Follows (fun s l s' => Step s l s' ∧ s.Undisturbed l) := fun _ _ _ => .intro
  have hevent : (serving [] (.events [0])).Undisturbed (.event .POSTPONED) := by
    intro pSession pending _ hmem
    nomatch hmem
  have hfirst := serving_postponed hstep ⟨Step.event rfl, hevent⟩ (serving_wait hstep (serving_reachable hstep))
  exact serving_wait hstep (serving_pass hstep hfirst)

theorem not_owned : ¬ ∀ s, Transition.Reachable Started Step s → s.Owned := by
  intro howned
  have hstep : Follows Step := fun _ _ _ h _ => h
  have hfirst := serving_postponed hstep (Step.event rfl) (serving_wait hstep (serving_reachable hstep))
  have hlate := serving_wait hstep (serving_pass hstep hfirst)
  have hsecond := serving_postponed hstep (Step.event rfl) hlate
  have hnodup := (howned _ hsecond).nodup
  revert hnodup
  decide

end ServerThread

end YAMemcached
