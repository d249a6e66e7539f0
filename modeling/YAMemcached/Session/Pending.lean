import YAMemcached.Request.Appends
import YAMemcached.Request.Framing
import YAMemcached.Session.Calls

/-!
This module shows in which runs a session that was told about input it has not read returns `POSTPONED` when it
goes back to reading.
-/

namespace YAMemcached
namespace Session

/--
A session, the result of its last call, and whether there is input that it was told about and has not read.
-/
structure Watched where
  session : Session
  result : SessionResult
  pending : Bool

namespace Watched

def Start (c : Watched) : Prop :=
  (c.session = .init ∨ ∃ s : Session, c.session = s.reset) ∧ c.pending = false

instance (s : Session) : Decidable s.Writing := inferInstanceAs (Decidable (_ ∨ _))

/--
There is input when a read pass was cut off, or when `EPOLLIN` came while the session was writing. There is none
when `recv` has said so.
-/
def pendingAfter (c : Watched) (events : UInt32) (trace : List Action) : Bool :=
  match lastRecv trace with
  | some (.data (_ :: _)) => true
  | some (.fail .EWOULDBLOCK) => false
  | _ => c.pending ∨ events &&& EPOLLIN ≠ 0 ∧ c.session.Writing

def Step (processRequest : ProcessRequest σ) (allowed : Watched → UInt32 → List Action → Prop) (c : Watched)
    (call : UInt32 × σ × Socket) (c' : Watched) : Prop :=
  ∃ out, process processRequest call.1 c.session call.2.1 call.2.2 = .ok out ∧ allowed c call.1 out.trace
    ∧ out.result ≠ .FAILURE ∧ c' = ⟨out.session, out.result, c.pendingAfter call.1 out.trace⟩

/--
A session that is back to reading and has not read all of its input is scheduled for another read.
-/
def Remembers (c : Watched) : Prop :=
  c.pending = true → c.session.state = .READING_REQUEST → c.result = .POSTPONED

/--
`EPOLLOUT` finds the session waiting to read on: it was so before, it was told of input while it was writing, or its
read pass was cut off.
-/
def Waits (c : Watched) (events : UInt32) (trace : List Action) : Prop :=
  if events &&& EPOLLIN = 0 then c.session.state = .WRITING_WITH_PENDING_READ
  else c.session.Writing ∨ c.session.CutOff trace

/--
The steps after which the session does not know that there is input: its replies are not sent in one go, a read
pass is cut off and nothing is sent, a read pass ends with a `recv` of 0, or there is no read pass.
-/
inductive Forgets (c : Watched) (events : UInt32) (trace : List Action) : Prop where
  | blocked (output : events &&& EPOLLOUT ≠ 0) (waits : c.Waits events trace)
    (last : lastSend trace = some (.fail .EWOULDBLOCK))
  | silent (input : events &&& EPOLLIN ≠ 0) (state : ¬ c.session.Writing) (cut : c.session.CutOff trace)
    (last : lastSend trace = none)
  | shutDown (pending : c.pending = true) (input : events &&& EPOLLIN ≠ 0) (state : ¬ c.session.Writing)
    (last : lastRecv trace = some (.data []))
  | idle (pending : c.pending = true) (input : events &&& EPOLLIN = 0) (state : ¬ c.session.Writing)

structure Inv (c : Watched) : Prop where
  output : OutputInv c.session
  pending : c.pending = true → c.session.state = .WRITING_WITH_PENDING_READ
    ∨ c.session.state = .READING_REQUEST ∧ c.result = .POSTPONED

end Watched

/-! ### A read pass -/

inductive Received.Leads (received : Received) (first : Outcome σ) : Prop where
  | nothing (result : first.result = .SUCCESS) (state : first.session.state = .READING_REQUEST)
    (silent : lastSend first.trace = none)
  | blocked (result : first.result = .SUCCESS) (state : first.session.state = sendingState received.readAborted)
  | sent (result : first.result = if received.readAborted then .POSTPONED else .SUCCESS)
    (state : first.session.state = .READING_REQUEST)

theorem ReadPass.leads {processRequest : ProcessRequest σ} (hpr : AppendsOnly processRequest) {s : Session}
    (hle : s.outBufferOffset ≤ s.outBufferBytes) (h : ReadPass processRequest s table socket first)
    (hfailed : first.result ≠ .FAILURE)
    : ∃ received, Reads s socket.recvs received ∧ ¬ received.fails
        ∧ lastRecv first.trace = lastRecv received.trace
        ∧ (received.readAborted = true ↔ s.CutOff first.trace) ∧ received.Leads first := by
  cases h with
  | failed received reads fails hout =>
    subst hout
    exact absurd rfl hfailed
  | idle received processed reads fails loop elements hout =>
    subst hout
    have hcut : received.readAborted = true ↔ s.CutOff (received.trace ++ processed.trace ++ []) :=
      reads.cutOff_iff loop rfl
    rw [List.append_nil] at hcut
    exact ⟨received, reads, fails, lastRecv_pass loop, hcut, .nothing rfl rfl (lastSend_pass reads loop)⟩
  | replied received processed s' reads fails loop elements move sent replies hout =>
    subst hout
    have hnoRecv : lastRecv sent.trace = none := by
      rw [replies]
      exact sendReplies_noRecv ..
    refine ⟨received, reads, fails, ?_, reads.cutOff_iff loop hnoRecv, ?_⟩
    . dsimp only
      rw [lastRecv_append, hnoRecv, lastRecv_pass loop]
      rfl
    . by_cases hleft : sizeSub s'.outBufferBytes s'.outBufferOffset = 0
      . rw [sendReplies_nothing _ _ _ hleft] at replies
        subst replies
        refine .nothing rfl rfl ?_
        dsimp only
        rw [List.append_nil]
        exact lastSend_pass reads loop
      . have hle' := offset_le_of_pass hpr hle reads loop move
        rw [sendReplies_sending _ _ _ hleft] at replies
        have hsending := sendReply_sending { s' with state := sendingState received.readAborted }.doneResult .SUCCESS
          processed.table (s := { s' with state := sendingState received.readAborted })
          { socket with recvs := received.recvs } hle' (Nat.pos_of_ne_zero hleft)
        rw [← replies] at hsending
        cases hsending with
        | failed last fails sent' result => exact absurd result hfailed
        | blocked sent' result session le left =>
          refine .blocked result ?_
          dsimp only
          rw [session]
        | sent n sent' result session =>
          refine .sent ?_ ?_
          . dsimp only
            rw [result]
            unfold doneResult sendingState
            cases received.readAborted
            . rfl
            . rfl
          . dsimp only
            rw [session]

/-! ### Sending -/

theorem processOut_writing {first : Outcome σ} (hwriting : first.session.Writing)
    (hle : first.session.outBufferOffset ≤ first.session.outBufferBytes) (hout : events &&& EPOLLOUT ≠ 0)
    (hfailed : (processOut events first).result ≠ .FAILURE)
    : lastSend (processOut events first).trace = some (.fail .EWOULDBLOCK)
      ∨ (processOut events first).result = first.session.doneResult
        ∧ (processOut events first).session.state = .READING_REQUEST := by
  rw [processOut_result events hout, writeReply_writing _ hwriting] at hfailed
  have hleft := sendReply_left hfailed
  have hsending := sendReply_sending first.session.doneResult first.result first.table
    (s := { first.session with state := .WRITING_REPLY }) first.socket hle hleft
  obtain ⟨flags, heq⟩ := processOut_of_ne hout first
  rw [heq, writeReply_writing _ hwriting]
  cases hsending with
  | failed last fails sent result => exact absurd result hfailed
  | blocked sent result session le left =>
    refine .inl ?_
    dsimp only
    rw [lastSend_append, sent]
    rfl
  | sent n sent result session =>
    refine .inr ⟨result, ?_⟩
    dsimp only
    rw [session]

theorem processOut_reading (events : UInt32) {first : Outcome σ} (hstate : first.session.state = .READING_REQUEST)
    (hresult : first.result ≠ .FAILURE)
    : (processOut events first).result = first.result
      ∧ (processOut events first).session.state = .READING_REQUEST
      ∧ (processOut events first).trace = first.trace := by
  by_cases hout : events &&& EPOLLOUT ≠ 0
  . have hidle : ¬ first.session.Writing := not_writing_iff.mpr (.inr hstate)
    obtain ⟨flags, heq⟩ := processOut_of_ne hout first
    rw [heq, writeReply_idle _ hidle]
    split
    . exact ⟨rfl, hstate, List.append_nil _⟩
    . next hpostponed =>
      refine ⟨?_, rfl, List.append_nil _⟩
      cases hcase : first.result with
      | SUCCESS => rfl
      | FAILURE => exact absurd hcase hresult
      | POSTPONED => exact absurd hcase hpostponed
  . rw [processOut_of_zero (not_not.mp hout)]
    exact ⟨rfl, hstate, rfl⟩

theorem processOut_cutOff (events : UInt32) (s : Session) (first : Outcome σ)
    : s.CutOff (processOut events first).trace ↔ s.CutOff first.trace := by
  unfold processOut
  split
  . unfold CutOff
    dsimp only
    rw [handedOut_append, handedOut_of_lastRecv (writeReply_noRecv ..), List.append_nil]
  . exact Iff.rfl

/-! ### Runs -/

namespace Watched

variable {c : Watched}

theorem Start.inv (h : c.Start) : c.Inv := by
  obtain ⟨hsession, hpending⟩ := h
  refine ⟨?_, ?_⟩
  . rcases hsession with hinit | ⟨s, hreset⟩
    . rw [hinit]
      exact init_inv
    . rw [hreset]
      exact reset_inv s
  . intro hyes
    rw [hpending] at hyes
    cases hyes

theorem waiting_out {events : UInt32} {first : Outcome σ}
    (hle : first.session.outBufferOffset ≤ first.session.outBufferBytes)
    (hstate : first.session.state = .WRITING_WITH_PENDING_READ)
    (hblocked : events &&& EPOLLOUT ≠ 0 → lastSend (processOut events first).trace ≠ some (.fail .EWOULDBLOCK))
    (hfailed : (processOut events first).result ≠ .FAILURE)
    : (processOut events first).session.state = .WRITING_WITH_PENDING_READ
      ∨ (processOut events first).session.state = .READING_REQUEST
        ∧ (processOut events first).result = .POSTPONED := by
  by_cases hout : events &&& EPOLLOUT ≠ 0
  . rcases processOut_writing (.inr hstate) hle hout hfailed with hlast | ⟨hresult, hreading⟩
    . exact absurd hlast (hblocked hout)
    . refine .inr ⟨hreading, ?_⟩
      rw [hresult]
      unfold doneResult
      rw [if_pos hstate]
  . rw [processOut_of_zero (not_not.mp hout)]
    exact .inl hstate

theorem pending_of_drained {received : Received} (hends : received.Ends)
    (hfails : ¬ received.fails) (hstate : ¬ c.session.Writing) (hrecv : lastRecv trace = lastRecv received.trace)
    (hdrained : received.readAborted = false) (hpending : c.pendingAfter events trace = true)
    : c.pending = true ∧ received.last = .data [] := by
  obtain ⟨hlast, hdata⟩ := hends.drained hdrained
  unfold pendingAfter at hpending
  rw [hrecv, hlast] at hpending
  cases hcase : received.last with
  | data data =>
    have hnil := hdata data hcase
    subst hnil
    rw [hcase] at hpending
    dsimp only at hpending
    rw [decide_eq_true_eq] at hpending
    rcases hpending with hpending | hlate
    . exact ⟨hpending, rfl⟩
    . exact absurd hlate.2 hstate
  | fail errno =>
    rw [hcase] at hpending
    cases errno with
    | EWOULDBLOCK => cases hpending
    | ECONNRESET => exact absurd (.inl hcase) hfails
    | other => exact absurd (.inr (.inl hcase)) hfails

theorem Step.inv {processRequest : ProcessRequest σ} (hpr : AppendsOnly processRequest) {c' : Watched} (hinv : c.Inv)
    (h : Step processRequest (fun c events trace => ¬ c.Forgets events trace) c call c') : c'.Inv := by
  obtain ⟨out, hprocess, hforgets, hfailed, hc'⟩ := h
  obtain ⟨events, table, socket⟩ := call
  subst hc'
  refine ⟨(process_flow hpr hinv.output hprocess).2, ?_⟩
  intro hpending
  dsimp only at hforgets hprocess hpending ⊢
  obtain ⟨first, hfirst, hread, hwrite, hnone⟩ := process_first hprocess
  have hinv0 : OutputInv { c.session with postponedEpollFlags := 0 } := ⟨hinv.output.offset_le, hinv.output.idle⟩
  have hle := (processIn_flow hpr hinv0 hfirst).2.offset_le
  have hgoesOn (hin : events &&& EPOLLIN ≠ 0) : first.result ≠ .FAILURE ∧ out = processOut events first := by
    have hout := hread hin
    unfold afterIn at hout
    by_cases hfirstFailed : first.result = .FAILURE
    . rw [if_pos hfirstFailed] at hout
      rw [hout] at hfailed
      exact absurd hfirstFailed hfailed
    . rw [if_neg hfirstFailed] at hout
      exact ⟨hfirstFailed, hout⟩
  cases processIn_part hfirst with
  | read input state pass =>
    obtain ⟨hfirstFailed, hout⟩ := hgoesOn input
    subst hout
    obtain ⟨received, hreads, hfails, hrecv, hcutOff, hleads⟩ := pass.leads hpr hinv0.offset_le hfirstFailed
    have hrecv := (processOut_lastRecv events first).trans hrecv
    have haborted : received.readAborted = true := by
      rw [← Bool.not_eq_false]
      intro hdrained
      obtain ⟨hyes, hlast⟩ := pending_of_drained hreads.ends hfails state hrecv hdrained hpending
      refine hforgets (.shutDown hyes input state ?_)
      rw [hrecv, (hreads.ends.drained hdrained).1, hlast]
    have hcut := (processOut_cutOff events c.session first).mpr (hcutOff.mp haborted)
    cases hleads with
    | nothing result state' silent =>
      obtain ⟨_, _, htrace⟩ := processOut_reading events state' hfirstFailed
      exact absurd (.silent input state hcut (by rw [htrace]; exact silent)) hforgets
    | blocked result state' =>
      rw [haborted] at state'
      refine waiting_out hle state' (fun hout hlast => hforgets (.blocked hout ?_ hlast)) hfailed
      unfold Waits
      rw [if_neg input]
      exact .inr hcut
    | sent result state' =>
      rw [haborted, if_pos rfl] at result
      obtain ⟨hresult, hreading, _⟩ := processOut_reading events state' hfirstFailed
      exact .inr ⟨hreading, hresult.trans result⟩
  | late input state hfirstOut =>
    obtain ⟨_, hout⟩ := hgoesOn input
    subst hout
    refine waiting_out hle (by rw [hfirstOut]) (fun hout hlast => hforgets (.blocked hout ?_ hlast)) hfailed
    unfold Waits
    rw [if_neg input]
    exact .inl state
  | none input hfirstOut =>
    by_cases output : events &&& EPOLLOUT = 0
    . rw [hnone input output] at hfailed
      exact absurd rfl hfailed
    . have hout := hwrite input output
      subst hout
      have hyes : c.pending = true := by
        unfold pendingAfter at hpending
        rw [processOut_lastRecv, hfirstOut] at hpending
        dsimp only [lastRecv] at hpending
        rcases of_decide_eq_true hpending with hpending | hlate
        . exact hpending
        . exact absurd input hlate.1
      have hstate : c.session.state = .WRITING_WITH_PENDING_READ := by
        rcases hinv.pending hyes with hstate | hstate
        . exact hstate
        . exact absurd (.idle hyes input (not_writing_iff.mpr (.inr hstate.1))) hforgets
      refine waiting_out hle (by rw [hfirstOut]; exact hstate) (fun hout hlast => hforgets (.blocked hout ?_ hlast))
        hfailed
      unfold Waits
      rw [if_pos input]
      exact hstate

/--
In a run whose steps do not make the session forget that there is input, every call that brings it back to
reading returns `POSTPONED`, unless it has read all of it.
-/
theorem remembers_of_reachable {τ : Type} (ops : CountingHashTable τ) (casLocks : Nat → Nat)
    (h : Transition.Reachable Start (Step (processRequest ops casLocks)
      (fun c events trace => ¬ c.Forgets events trace)) c)
    : c.Remembers := by
  have hinv : c.Inv := by
    apply Transition.Reachable.invariant _ _ h
    . intro c hc
      exact hc.inv
    . intro c call c' hinv hstep
      exact hstep.inv (processRequest_appendsOnly ops casLocks) hinv
  intro hpending hreading
  rcases hinv.pending hpending with hstate | hstate
  . rw [hreading] at hstate
    cases hstate
  . exact hstate.2

/-! ### A reply that does not fit -/

def getK : List UInt8 := [103, 101, 116, 32, 107, 13, 10]

theorem process_getK
    : ∃ out, process (processRequest emptyTable (fun _ => 0)) EPOLLIN init ⟨(), []⟩ ⟨[.data getK], []⟩ = .ok out
        ∧ out.result = .SUCCESS ∧ out.session.state = .WRITING_REPLY ∧ out.session.outBufferBytes = 5
        ∧ out.session.outBufferOffset = 0 ∧ lastRecv out.trace = some (.fail .EWOULDBLOCK)
        ∧ (handedOut out.trace).length = 7 := by
  have hchecked : (match process (processRequest emptyTable (fun _ => 0)) EPOLLIN init ⟨(), []⟩
        ⟨[.data getK], []⟩ with
      | .ok out => decide (out.result = .SUCCESS ∧ out.session.state = .WRITING_REPLY
        ∧ out.session.outBufferBytes = 5 ∧ out.session.outBufferOffset = 0
        ∧ lastRecv out.trace = some (.fail .EWOULDBLOCK) ∧ (handedOut out.trace).length = 7)
      | .error _ => false) = true := by
    decide +kernel
  cases hprocess : process (processRequest emptyTable (fun _ => 0)) EPOLLIN init ⟨(), []⟩ ⟨[.data getK], []⟩ with
  | error stop =>
    rw [hprocess] at hchecked
    cases hchecked
  | ok out =>
    rw [hprocess] at hchecked
    exact ⟨out, rfl, of_decide_eq_true hchecked⟩

theorem process_late (processRequest : ProcessRequest σ) {s : Session} (h : s.Writing) (table : σ) (socket : Socket)
    : process processRequest EPOLLIN s table socket
        = .ok ⟨.SUCCESS, { s with postponedEpollFlags := 0, state := .WRITING_WITH_PENDING_READ }, table, [],
          socket⟩ := by
  obtain ⟨⟩ := s
  rcases h with hstate | hstate
  . dsimp only at hstate
    subst hstate
    rfl
  . dsimp only at hstate
    subst hstate
    rfl

theorem process_first_byte (processRequest : ProcessRequest σ) {s : Session}
    (hstate : s.state = .WRITING_WITH_PENDING_READ) (hbytes : s.outBufferBytes = 5) (hoffset : s.outBufferOffset = 0)
    (table : σ)
    : ∃ out, process processRequest EPOLLOUT s table ⟨[], [.accept 1]⟩ = .ok out ∧ out.result = .SUCCESS
        ∧ lastRecv out.trace = none ∧ out.session.state = .WRITING_REPLY ∧ out.session.outBufferBytes = 5
        ∧ out.session.outBufferOffset = 1 := by
  obtain ⟨⟩ := s
  dsimp only at hstate hbytes hoffset
  subst hstate hbytes hoffset
  exact ⟨_, rfl, rfl, rfl, rfl, rfl, rfl⟩

theorem process_rest (processRequest : ProcessRequest σ) {s : Session}
    (hstate : s.state = .WRITING_REPLY) (hbytes : s.outBufferBytes = 5) (hoffset : s.outBufferOffset = 1) (table : σ)
    : ∃ out, process processRequest EPOLLOUT s table ⟨[], [.accept 4]⟩ = .ok out ∧ out.result = .SUCCESS
        ∧ lastRecv out.trace = none ∧ out.session.state = .READING_REQUEST := by
  obtain ⟨⟩ := s
  dsimp only at hstate hbytes hoffset
  subst hstate hbytes hoffset
  exact ⟨_, rfl, rfl, rfl, rfl⟩

theorem process_all (processRequest : ProcessRequest σ) {s : Session}
    (hstate : s.state = .WRITING_WITH_PENDING_READ) (hbytes : s.outBufferBytes = 5) (hoffset : s.outBufferOffset = 0)
    (table : σ)
    : ∃ out, process processRequest EPOLLOUT s table ⟨[], [.accept 5]⟩ = .ok out ∧ out.result = .POSTPONED
        ∧ lastRecv out.trace = none ∧ out.session.state = .READING_REQUEST
        ∧ lastSend out.trace = some (.accept 5) := by
  obtain ⟨⟩ := s
  dsimp only at hstate hbytes hoffset
  subst hstate hbytes hoffset
  exact ⟨_, rfl, rfl, rfl, rfl, rfl⟩

theorem not_forgets_in (hpending : c.pending = false) (hcut : c.session.Writing ∨ ¬ c.session.CutOff trace)
    : ¬ c.Forgets EPOLLIN trace := by
  intro hforgets
  cases hforgets with
  | blocked output waits last => exact absurd output (by decide)
  | silent input state cut last =>
    rcases hcut with hwriting | hcut
    . exact state hwriting
    . exact hcut cut
  | shutDown pending input state last =>
    rw [hpending] at pending
    cases pending
  | idle pending input state =>
    rw [hpending] at pending
    cases pending

theorem reachable_waiting (allowed : Watched → UInt32 → List Action → Prop)
    (hin : ∀ trace, (handedOut trace).length = 7 → allowed ⟨init, .SUCCESS, false⟩ EPOLLIN trace)
    (hlate : ∀ (s : Session) (trace : List Action), s.Writing → allowed ⟨s, .SUCCESS, false⟩ EPOLLIN trace)
    : ∃ s : Session, Transition.Reachable Start (Step (processRequest emptyTable (fun _ => 0)) allowed)
          ⟨s, .SUCCESS, true⟩
        ∧ s.state = .WRITING_WITH_PENDING_READ ∧ s.outBufferBytes = 5 ∧ s.outBufferOffset = 0 := by
  obtain ⟨out, hprocess, hresult, hstate, hbytes, hoffset, hrecv, hlength⟩ := process_getK
  have hwriting : out.session.Writing := .inl hstate
  have hprocess' := process_late (processRequest emptyTable (fun _ => 0)) hwriting ⟨(), []⟩ ⟨[], []⟩
  refine ⟨{ out.session with postponedEpollFlags := 0, state := .WRITING_WITH_PENDING_READ }, ?_, rfl, hbytes,
    hoffset⟩
  refine .step ⟨out.session, .SUCCESS, false⟩ (EPOLLIN, ⟨(), []⟩, ⟨[], []⟩) _ ?_
    ⟨_, hprocess', hlate _ _ hwriting, nofun, ?_⟩
  . refine .step ⟨init, .SUCCESS, false⟩ (EPOLLIN, ⟨(), []⟩, ⟨[.data getK], []⟩) _ (.init _ ⟨.inl rfl, rfl⟩)
      ⟨out, hprocess, hin _ hlength, ?_, ?_⟩
    . rw [hresult]
      nofun
    . unfold pendingAfter
      rw [hresult, hrecv]
  . have hpending : pendingAfter ⟨out.session, .SUCCESS, false⟩ EPOLLIN [] = true :=
      decide_eq_true (.inr ⟨by decide, hwriting⟩)
    dsimp only
    rw [hpending]

theorem remembers_of_reachable_getK
    : ∃ c, Transition.Reachable Start (Step (processRequest emptyTable (fun _ => 0))
          (fun c events trace => ¬ c.Forgets events trace)) c
        ∧ c.pending = true ∧ c.session.state = .READING_REQUEST ∧ c.Remembers := by
  obtain ⟨s, hwaiting, hstate, hbytes, hoffset⟩ := reachable_waiting (fun c events trace => ¬ c.Forgets events trace)
    (by
      intro trace hlength
      refine not_forgets_in rfl (.inr ?_)
      intro hcut
      have hle := hcut.2
      rw [hlength] at hle
      exact absurd hle (by decide))
    (fun s trace hwriting => not_forgets_in rfl (.inl hwriting))
  obtain ⟨out, hprocess, hresult, hrecv, hreading, hlast⟩ :=
    process_all (processRequest emptyTable (fun _ => 0)) hstate hbytes hoffset ⟨(), []⟩
  have hforgets : ¬ Forgets ⟨s, .SUCCESS, true⟩ EPOLLOUT out.trace := by
    intro hforgets
    cases hforgets with
    | blocked output waits last =>
      rw [hlast] at last
      cases last
    | silent input state cut last => exact absurd rfl input
    | shutDown pending input state last => exact absurd rfl input
    | idle pending input state => exact state (.inr hstate)
  have hreachable : Transition.Reachable Start (Step (processRequest emptyTable (fun _ => 0))
      (fun c events trace => ¬ c.Forgets events trace)) ⟨out.session, out.result, true⟩ := by
    refine .step ⟨s, .SUCCESS, true⟩ (EPOLLOUT, ⟨(), []⟩, ⟨[], [.accept 5]⟩) _ hwaiting
      ⟨out, hprocess, hforgets, ?_, ?_⟩
    . rw [hresult]
      nofun
    . unfold pendingAfter
      rw [hrecv]
      rfl
  exact ⟨_, hreachable, rfl, hreading, remembers_of_reachable emptyTable (fun _ => 0) hreachable⟩

/--
When the reply is sent in two goes, the session forgets that there is more.
-/
theorem not_remembers
    : ¬ ∀ (τ : Type) (ops : CountingHashTable τ) (casLocks : Nat → Nat) (c : Watched),
        Transition.Reachable Start (Step (processRequest ops casLocks) (fun _ _ _ => True)) c → c.Remembers := by
  intro hall
  obtain ⟨s, hwaiting, hstate, hbytes, hoffset⟩ := reachable_waiting (fun _ _ _ => True) (fun _ _ => trivial)
    (fun _ _ _ => trivial)
  obtain ⟨out, hprocess, hresult, hrecv, hstate', hbytes', hoffset'⟩ :=
    process_first_byte (processRequest emptyTable (fun _ => 0)) hstate hbytes hoffset ⟨(), []⟩
  obtain ⟨out', hprocess', hresult', hrecv', hreading⟩ :=
    process_rest (processRequest emptyTable (fun _ => 0)) hstate' hbytes' hoffset' ⟨(), []⟩
  have hreachable : Transition.Reachable Start (Step (processRequest emptyTable (fun _ => 0)) (fun _ _ _ => True))
      ⟨out'.session, out'.result, true⟩ := by
    refine .step ⟨out.session, out.result, true⟩ (EPOLLOUT, ⟨(), []⟩, ⟨[], [.accept 4]⟩) _ ?_
      ⟨out', hprocess', trivial, ?_, ?_⟩
    . refine .step ⟨s, .SUCCESS, true⟩ (EPOLLOUT, ⟨(), []⟩, ⟨[], [.accept 1]⟩) _ hwaiting
        ⟨out, hprocess, trivial, ?_, ?_⟩
      . rw [hresult]
        nofun
      . unfold pendingAfter
        rw [hrecv]
        rfl
    . rw [hresult']
      nofun
    . unfold pendingAfter
      rw [hrecv']
      rfl
  have hpostponed := hall Unit emptyTable (fun _ => 0) _ hreachable rfl hreading
  rw [hresult'] at hpostponed
  cases hpostponed

end Watched

end Session

end YAMemcached
