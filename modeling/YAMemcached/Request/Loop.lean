import YAMemcached.Request.Appends
import YAMemcached.Request.Resume

/-!
This module shows what the processing loop of `process` makes of the bytes in the input buffer: it executes
the requests that are complete, and stops at the one that is not.
-/

namespace YAMemcached

open Frames

section Executes

variable {τ : Type} (ops : CountingHashTable τ)

def TextRequest.executes : List TextRequest → CalledTable τ → List UInt8 × CalledTable τ
  | [], t => ([], t)
  | r :: requests, t =>
    let (reply, t) := r.execute ops t
    let (replies, t) := executes requests t
    (reply ++ replies, t)

theorem TextRequest.executes_append (xs ys : List TextRequest) (t : CalledTable τ)
    : executes ops (xs ++ ys) t
        = ((executes ops xs t).1 ++ (executes ops ys (executes ops xs t).2).1,
          (executes ops ys (executes ops xs t).2).2) := by
  induction xs generalizing t with
  | nil => rfl
  | cons r xs ih =>
    rw [List.cons_append, executes, executes]
    dsimp only
    rw [ih, List.append_assoc]

end Executes

def Session.passes (processRequest : ProcessRequest σ) : Nat → Session → σ → List Session
  | 0, s, _ => [s]
  | fuel + 1, s, table =>
    if s.inBufferOffset < s.inBufferBytes then
      match processRequest s table with
      | .ok (true, s', table') => s :: passes processRequest fuel s' table'
      | .ok (false, s', _) => [s, s']
      | .error _ => [s]
    else
      [s]

/--
A request that is well formed and whose data block, if it has one, is not empty.
-/
structure TextRequest.Admissible (r : TextRequest) : Prop where
  wellFormed : r.WellFormed
  dataBlock : r.dataBlock ≠ some []

structure Session.Holding (done rest : List TextRequest) (pre : List UInt8) (s : Session) : Prop where
  room : s.HasRoom
  resumes : ∀ r requests, done ++ rest = r :: requests → s.Resumes r
  holds : s.inBuffer.Holds s.inBufferOffset (done.flatMap TextRequest.text ++ pre)
  bytes : s.inBufferBytes
    = s.inBufferOffset + (done.flatMap TextRequest.text ++ pre).length
  size : s.inBufferBytes < 2 ^ 63
  proper : ∀ r requests, rest = r :: requests →
    pre <+: r.text ∧ pre.length < r.text.length ∧ pre.length + 1 ≠ r.header.length ∧ r.text.length < 2 ^ 62
  none : rest = [] → pre = []

variable {τ : Type} (ops : CountingHashTable τ) (casLocks : Nat → Nat)

structure Looped (done rest : List TextRequest) (pre : List UInt8) (s s' : Session) : Prop where
  room : s'.HasRoom
  inBuffer : s'.inBuffer = s.inBuffer
  inBufferBytes : s'.inBufferBytes = s.inBufferBytes
  inBufferOffset : s'.inBufferOffset = s.inBufferOffset + (done.flatMap TextRequest.text).length
  finished : pre = [] → done ≠ [] ∨ s.requestInfo.state = .DONE_STATE →
    s'.requestInfo.state = .DONE_STATE
  unfinished : pre ≠ [] → s'.requestInfo.state ≠ .DONE_STATE
  waiting : ∀ r requests, done = [] → rest = r :: requests → pre ≠ [] →
    Waiting r s s' ∧ (¬ r.KeepsKeys pre → s'.Resumes r)

theorem replyOf_answered {s s' : Session} (h : Answered bytes taken s s')
    : Session.replyOf s s' = bytes := by
  unfold Session.replyOf
  rw [h.outBufferBytes, Nat.add_sub_cancel_left]
  exact h.appended

theorem processLoop_eq (done : List TextRequest) {rest : List TextRequest} {pre : List UInt8}
    {s : Session} {t : CalledTable τ} (hadmissible : ∀ r ∈ done ++ rest, r.Admissible)
    (h : s.Holding done rest pre) (fuel : Nat)
    (hfuel : (done.flatMap TextRequest.text ++ pre).length < fuel)
    : ∃ out, Session.processLoop (processRequest ops casLocks) fuel s t = .ok out
        ∧ out.elementsProcessed = done.length
        ∧ out.table = (TextRequest.executes ops done t).2
        ∧ Session.appended out.trace = (TextRequest.executes ops done t).1
        ∧ Looped done rest pre s out.session
        ∧ ∀ s' ∈ Session.passes (processRequest ops casLocks) fuel s t,
            s'.inBufferOffset ≤ s'.inBufferBytes := by
  induction done generalizing s t fuel with
  | nil =>
    obtain ⟨fuel, rfl⟩ : ∃ n, fuel = n + 1 := ⟨fuel - 1, by omega⟩
    have hbytes := h.bytes
    rw [List.flatMap_nil, List.nil_append] at hbytes
    have hholds := h.holds
    rw [List.flatMap_nil, List.nil_append] at hholds
    unfold Session.processLoop Session.passes
    cases pre with
    | nil =>
      rw [List.length_nil, Nat.add_zero] at hbytes
      rw [if_neg (by omega), if_neg (by omega)]
      refine ⟨_, rfl, rfl, rfl, rfl, ⟨h.room, rfl, rfl, rfl, fun _ hdone => hdone.resolve_left (fun hne => hne rfl),
        fun hne => absurd rfl hne, fun _ _ _ _ hne => absurd rfl hne⟩, ?_⟩
      intro s' hs'
      rw [List.mem_singleton] at hs'
      rw [hs']
      omega
    | cons c pre =>
      cases rest with
      | nil => cases h.none rfl
      | cons r rest =>
        obtain ⟨hbegin, hshort, hend, hsmall⟩ := h.proper r rest rfl
        have hsize := h.size
        have hr := hadmissible r (.head _)
        rw [List.length_cons] at hbytes
        obtain ⟨s', heq, hwaiting, hresumes⟩ := processRequest_none ops casLocks (t := t)
          (c :: pre) (h.resumes r rest rfl)
          ⟨hholds, hbytes, List.cons_ne_nil _ _, by omega, hbegin, hshort, hend⟩ hr.wellFormed
          hr.dataBlock
        rw [if_pos (by omega), if_pos (by omega), heq]
        refine ⟨_, rfl, rfl, rfl, ?_, ⟨?_, ?_, ?_, ?_, ?_, fun _ => hwaiting.state, ?_⟩, ?_⟩
        . unfold Session.appended Session.replyOf
          rw [hwaiting.eq]
          simp [Action.appended, Buffer.slice, TextRequest.executes]
        . rw [hwaiting.eq]
          exact ⟨h.room.pos, h.room.le⟩
        . rw [hwaiting.eq]
        . rw [hwaiting.eq]
        . rw [hwaiting.eq]
          rfl
        . intro hnil
          cases hnil
        . intro _ _ _ hrest _
          cases hrest
          exact ⟨hwaiting, hresumes⟩
        . intro s'' hs''
          rw [List.mem_cons, List.mem_singleton] at hs''
          rcases hs'' with rfl | rfl
          . omega
          . rw [hwaiting.eq]
            dsimp only
            omega
  | cons r done ih =>
    obtain ⟨fuel, rfl⟩ : ∃ n, fuel = n + 1 := ⟨fuel - 1, by omega⟩
    have hr := hadmissible r (.head _)
    have hholds := h.holds
    have hbytes := h.bytes
    have hsize := h.size
    have hpos := r.length_header_pos
    have hlen := r.header_begins.length_le
    rw [List.flatMap_cons, List.append_assoc] at hholds hbytes hfuel
    rw [Buffer.holds_append] at hholds
    rw [List.length_append] at hbytes hfuel
    obtain ⟨s', heq, hanswered⟩ := processRequest_resumes ops casLocks (t := t)
      (h.resumes r (done ++ rest) rfl) h.room hr.wellFormed hr.dataBlock hholds.1 (by omega) (by omega)
    have hoffset := hanswered.inBufferOffset
    have hholding : s'.Holding done rest pre := by
      refine ⟨hanswered.room, fun _ _ _ => .done hanswered.state, ?_, ?_, ?_, h.proper, h.none⟩
      . rw [hanswered.inBuffer, hoffset]
        exact hholds.2
      . rw [hanswered.inBufferBytes, hoffset, hbytes, Nat.add_assoc]
      . rw [hanswered.inBufferBytes]
        exact hsize
    obtain ⟨out, hloop, hcount, htable, happended, hlooped, hpasses⟩ := ih (t := (r.execute ops t).2)
      (fun r hr => hadmissible r (.tail _ hr)) hholding fuel (by omega)
    unfold Session.processLoop Session.passes
    rw [if_pos (by omega), if_pos (by omega), heq, Except.ok_bind]
    dsimp only
    rw [if_pos rfl, hloop, Except.ok_bind]
    refine ⟨_, rfl, ?_, htable, ?_, ⟨hlooped.room, ?_, ?_, ?_, ?_, hlooped.unfinished, ?_⟩, ?_⟩
    . dsimp only
      rw [hcount, List.length_cons]
    . unfold Session.appended at happended ⊢
      rw [List.flatMap_cons, happended, Action.appended, replyOf_answered hanswered]
      rfl
    . exact hlooped.inBuffer.trans hanswered.inBuffer
    . exact hlooped.inBufferBytes.trans hanswered.inBufferBytes
    . dsimp only
      rw [hlooped.inBufferOffset, hoffset, List.flatMap_cons, List.length_append, Nat.add_assoc]
    . intro hnil _
      exact hlooped.finished hnil (.inr hanswered.state)
    . intro _ _ hnil
      cases hnil
    . intro s'' hs''
      rw [List.mem_cons] at hs''
      rcases hs'' with rfl | hs''
      . omega
      . exact hpasses s'' hs''

end YAMemcached
