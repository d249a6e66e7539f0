import YAMemcached.Request.Decimal
import YAMemcached.Request.Framing

/-!
This module contains the requests of the text protocol as they write to the output buffer, character by
character, and shows that they stay inside of it.
-/

namespace YAMemcached

/--
A session and the writes to its output buffer, the last one first: the index of each, and the size of the
buffer at that moment.
-/
structure Written where
  session : Session
  writes : List (Nat × Nat)

namespace Written

/-! ### Writes -/

def outBufferBytes (w : Written) : Nat := w.session.outBufferBytes

def size (w : Written) : Nat := w.session.outBuffer.size

def bytes (w : Written) : Nat → UInt8 := w.session.outBuffer.bytes

def put (w : Written) (index : Nat) (c : UInt8) : Written where
  session := { w.session with outBuffer := w.session.outBuffer.write index [c] }
  writes := (index, w.size) :: w.writes

def copy (w : Written) (index : Nat) : List UInt8 → Written
  | [] => w
  | c :: chars => (w.put index c).copy (index + 1) chars

def advance (w : Written) (n : Nat) : Written :=
  { w with session := { w.session with outBufferBytes := w.outBufferBytes + n } }

def copyNext (w : Written) (chars : List UInt8) : Written := (w.copy w.outBufferBytes chars).advance chars.length

def grow (w : Written) (len : Nat) : Except Stop Written := do
  let s ← growOutBuffer len (w.outBufferBytes + len + 1) w.session
  .ok { w with session := s }

def putDigits : Nat → Written → Nat → Nat → Nat → Written × Nat
  | 0, w, _, n, _ => (w, n)
  | fuel + 1, w, str, n, v =>
    let w := w.put (str + n) (UInt8.ofNat (48 + v % 10))
    if v / 10 = 0 then
      (w, n + 1)
    else
      putDigits fuel w str (n + 1) (v / 10)

def swapDigits (str n : Nat) : Nat → Nat → Written → Written
  | 0, _, w => w
  | count + 1, i, w =>
    let tmp := w.bytes (str + i)
    let w := w.put (str + i) (w.bytes (str + ((n - 1) - i)))
    swapDigits str n count (i + 1) (w.put (str + ((n - 1) - i)) tmp)

def itoa (w : Written) (value : Nat) : Written × Nat :=
  let str := w.outBufferBytes
  let (w, n) := putDigits (value + 1) w str 0 value
  let w := w.put (str + n) 32
  (swapDigits str n (n / 2) 0 w, n)

/-! ### Requests -/

def reply (w : Written) (text : List UInt8) : Except Stop Written := do
  let w ← w.grow (text.length + 1)
  .ok (w.copyNext text)

def replyText (w : Written) (text : List UInt8) : Except Stop Written :=
  if w.session.requestInfo.requestFlags &&& NOREPLY = 0 then
    w.reply text
  else
    .ok w

def replyValue (w : Written) (key : List UInt8) (sValue : StorageValue) : Except Stop Written := do
  let w ← w.grow (key.length + sValue.value.length + SOME_TEXT_LEN)
  let w := w.copyNext VALUE
  let w := w.copyNext (strncpy key)
  let w := (w.put w.outBufferBytes 32).advance 1
  let (w, itoaLen) := w.itoa (sValue.flags % 2 ^ 32)
  let w := w.advance (itoaLen + 1)
  let (w, itoaLen) := w.itoa (sValue.value.length % 2 ^ 64)
  -- skip space at the end
  let w := w.advance itoaLen
  let w := ((w.put w.outBufferBytes 13).put (w.outBufferBytes + 1) 10).advance 2
  let w := w.copyNext (strncpy sValue.value)
  .ok (((w.put w.outBufferBytes 13).put (w.outBufferBytes + 1) 10).advance 2)

def replyStats (w : Written) (counter : Nat) : Except Stop Written := do
  let w ← w.grow SOME_TEXT_LEN
  let (w, itoaLen) := w.itoa counter
  let w := w.advance itoaLen
  .ok (((w.put w.outBufferBytes 13).put (w.outBufferBytes + 1) 10).advance 2)

section Requests

variable {τ : Type} (ops : CountingHashTable τ) (casLocks : Nat → Nat)

def processSet (w : Written) (t : CalledTable τ) : Except Stop (Written × CalledTable τ) := do
  let s := w.session
  let (_, table) := ops.insertOrSet t.table s.key s.sValue s.requestInfo.expTime
  let calls := .insertOrSet s.key s.sValue s.requestInfo.expTime :: t.calls
  let w ← w.replyText STORED
  .ok (w, ⟨table, calls⟩)

def processAdd (w : Written) (t : CalledTable τ) : Except Stop (Written × CalledTable τ) := do
  let s := w.session
  let (inserted, table) := ops.insert t.table s.key s.sValue s.requestInfo.expTime
  let calls := .insert s.key s.sValue s.requestInfo.expTime :: t.calls
  let w ← w.replyText (if inserted then STORED else EXISTS)
  .ok (w, ⟨table, calls⟩)

def processReplace (w : Written) (t : CalledTable τ) : Except Stop (Written × CalledTable τ) := do
  let s := w.session
  let (setResult, table) := ops.set t.table s.key s.sValue s.requestInfo.expTime
  let calls := .set s.key s.sValue s.requestInfo.expTime :: t.calls
  let w ← w.replyText (if setResult then STORED else NOT_STORED)
  .ok (w, ⟨table, calls⟩)

def processCas (w : Written) (t : CalledTable τ) : Except Stop (Written × CalledTable τ) := do
  let s := w.session
  let sValue := s.sValue
  let (replacedValue, written, table) := ops.getLocked t.table s.key
  let calls := .getLocked s.key :: t.calls
  let locks (i : Nat) : Nat := written.getD i (casLocks i)
  match replacedValue with
  | some replacedValue =>
    if sValue.casTicket = replacedValue.casTicket then
      let sValue := { sValue with casTicket := sizeAdd sValue.casTicket 1 }
      let expTime := s.requestInfo.expTime
      let table := ops.setLocked table sValue expTime (locks ops.hashSize) (locks 0)
      let calls := .setLocked sValue expTime (locks ops.hashSize) (locks 0) :: calls
      let w ← w.replyText STORED
      .ok (w, ⟨table, calls⟩)
    else
      let table := ops.unlockElement table (locks 0)
      let calls := .unlockElement (locks 0) :: calls
      let w ← w.replyText NOT_STORED
      .ok (w, ⟨table, calls⟩)
  | none =>
    let w ← w.replyText NOT_STORED
    .ok (w, ⟨table, calls⟩)

def processKey (key : List UInt8) (w : Written) (t : CalledTable τ)
    : Except Stop (Written × CalledTable τ) := do
  let (found, table) := ops.get t.table key
  let calls := .get key :: t.calls
  match found with
  | some sValue =>
    let w ← w.replyValue key sValue
    .ok (w, ⟨table, calls⟩)
  | none => .ok (w, ⟨table, calls⟩)

def processGet (w : Written) (t : CalledTable τ) : Except Stop (Written × CalledTable τ) := do
  let s := w.session
  let additionalKeys := (s.requestInfo.getKeysList.getD []).map (fun it => s.inBuffer.slice it.1 it.2)
  let (w, t) ← (s.key :: additionalKeys).foldlM (fun (w, t) key => processKey ops key w t) (w, t)
  let w ← w.reply END
  .ok (w, t)

def processDelete (w : Written) (t : CalledTable τ) : Except Stop (Written × CalledTable τ) := do
  let s := w.session
  let (removeResult, table) := ops.remove t.table s.key
  let calls := .remove s.key :: t.calls
  let w ← w.replyText (if removeResult then DELETED else NOT_FOUND)
  .ok (w, ⟨table, calls⟩)

def processStats (w : Written) (t : CalledTable τ) : Except Stop (Written × CalledTable τ) := do
  let w ← w.replyStats (ops.count t.table % 2 ^ 64)
  .ok (w, t)

def executeRequest (w : Written) (t : CalledTable τ) : Except Stop (Written × CalledTable τ) :=
  match w.session.requestInfo.requestType with
  | .SET => w.processSet ops t
  | .ADD => w.processAdd ops t
  | .REPLACE => w.processReplace ops t
  | .CAS => w.processCas ops casLocks t
  | .GET | .GETS => w.processGet ops t
  | .STATS => w.processStats ops t
  | .DELETE => w.processDelete ops t
  | _ => .ok (w, t)

def dispatch (s : Session) (t : CalledTable τ) : Except Stop (Written × CalledTable τ) := do
  let (w, t) ← executeRequest ops casLocks ⟨s, []⟩ t
  .ok (w.put w.outBufferBytes 0, t)

end Requests

end Written

/-! ### Writes to a buffer -/

namespace Buffer

theorem write_nil (b : Buffer) (offset : Nat) : b.write offset [] = b := by
  unfold write
  simp

theorem write_behind (b : Buffer) (offset : Nat) (xs : List UInt8) {ys zs : List UInt8}
    (h : zs.length ≤ ys.length)
    : (b.write offset (xs ++ zs)).write (offset + xs.length) ys = b.write offset (xs ++ ys) := by
  unfold write
  dsimp only
  congr 1
  funext i
  by_cases hlow : offset ≤ i
  . rw [if_pos hlow, if_pos hlow]
    by_cases hxs : offset + xs.length ≤ i
    . rw [if_pos hxs]
      have hindex : xs.length ≤ i - offset := by omega
      rw [List.getD_append_right _ _ _ _ hindex, List.getD_append_right _ _ _ _ hindex]
      have heq : i - offset - xs.length = i - (offset + xs.length) := by omega
      rw [heq]
      by_cases hys : i - (offset + xs.length) < ys.length
      . rw [List.getD_eq_getElem _ _ hys, List.getD_eq_getElem _ _ hys]
      . rw [List.getD_eq_default _ _ (by omega), List.getD_eq_default _ _ (by omega),
          List.getD_eq_default _ _ (by omega)]
    . rw [if_neg hxs]
      have hindex : i - offset < xs.length := by omega
      rw [List.getD_append _ _ _ _ hindex, List.getD_append _ _ _ _ hindex]
  . rw [if_neg (by omega), if_neg hlow, if_neg hlow]

end Buffer

namespace Written

variable {w w' w'' : Written}

structure Wrote (offset : Nat) (bytes : List UInt8) (w w' : Written) : Prop where
  session : w'.session = { w.session with
    outBuffer := w.session.outBuffer.write offset bytes
    outBufferBytes := w'.outBufferBytes }
  writes : ∃ new, w'.writes = new ++ w.writes
    ∧ ∀ it ∈ new, offset ≤ it.1 ∧ it.1 < offset + bytes.length ∧ it.2 = w.size

namespace Wrote

theorem size (h : Wrote offset xs w w') : w'.size = w.size := by
  unfold Written.size
  rw [h.session]
  rfl

theorem nil (offset : Nat) (w : Written) : Wrote offset [] w w where
  session := by
    rw [Buffer.write_nil]
    rfl
  writes := ⟨[], rfl, by simp⟩

theorem behind (h : Wrote offset (xs ++ zs) w w') (h' : Wrote (offset + xs.length) ys w' w'')
    (hle : zs.length ≤ ys.length) : Wrote offset (xs ++ ys) w w'' where
  session := by
    rw [h'.session, h.session]
    dsimp only
    rw [Buffer.write_behind _ _ _ hle]
  writes := by
    have ⟨new, heq, hnew⟩ := h.writes
    have ⟨new', heq', hnew'⟩ := h'.writes
    refine ⟨new' ++ new, ?_, ?_⟩
    . rw [heq', heq, List.append_assoc]
    . intro it hit
      rw [List.length_append]
      rcases List.mem_append.mp hit with hit | hit
      . have ⟨hlow, hhigh, hsize⟩ := hnew' it hit
        exact ⟨by omega, by omega, hsize.trans h.size⟩
      . have ⟨hlow, hhigh, hsize⟩ := hnew it hit
        rw [List.length_append] at hhigh
        exact ⟨hlow, by omega, hsize⟩

theorem trans (h : Wrote offset xs w w') (h' : Wrote (offset + xs.length) ys w' w'')
    : Wrote offset (xs ++ ys) w w'' := by
  rw [← List.append_nil xs] at h
  exact h.behind h' (Nat.zero_le _)

theorem put (w : Written) (index : Nat) (c : UInt8) : Wrote index [c] w (w.put index c) where
  session := rfl
  writes := by
    refine ⟨[(index, w.size)], rfl, ?_⟩
    intro it hit
    rw [List.mem_singleton] at hit
    subst hit
    exact ⟨Nat.le_refl _, Nat.lt_succ_self _, rfl⟩

theorem advance (h : Wrote offset xs w w') (n : Nat) : Wrote offset xs w (w'.advance n) where
  session := by
    have hsession := h.session
    unfold Written.advance
    rw [hsession]
    rfl
  writes := h.writes

theorem copy (w : Written) (index : Nat) (chars : List UInt8)
    : Wrote index chars w (w.copy index chars) := by
  induction chars generalizing w index with
  | nil => exact .nil index w
  | cons c chars ih => exact (Wrote.put w index c).trans (ih (w.put index c) (index + 1))

end Wrote

@[simp]
theorem outBufferBytes_put (w : Written) (index : Nat) (c : UInt8)
    : (w.put index c).outBufferBytes = w.outBufferBytes := rfl

@[simp]
theorem outBufferBytes_advance (w : Written) (n : Nat)
    : (w.advance n).outBufferBytes = w.outBufferBytes + n := rfl

@[simp]
theorem outBufferBytes_copy (w : Written) (index : Nat) (chars : List UInt8)
    : (w.copy index chars).outBufferBytes = w.outBufferBytes := by
  induction chars generalizing w index with
  | nil => rfl
  | cons c chars ih => exact ih (w.put index c) (index + 1)

/-! ### `itoa` -/

/--
`w'` is `w` with the output buffer `b`, and nothing was written but some of the `n` characters at `str`.
-/
structure Within (str n : Nat) (b : Buffer) (w w' : Written) : Prop where
  session : w'.session = { w.session with outBuffer := b }
  size : b.size = w.size
  writes : ∃ new, w'.writes = new ++ w.writes ∧ ∀ it ∈ new, str ≤ it.1 ∧ it.1 < str + n ∧ it.2 = w.size

namespace Within

theorem refl (str n : Nat) (w : Written) : Within str n w.session.outBuffer w w :=
  ⟨rfl, rfl, [], rfl, by simp⟩

theorem put (w : Written) (c : UInt8) (hlow : str ≤ index) (hhigh : index < str + n)
    : Within str n (w.session.outBuffer.write index [c]) w (w.put index c) := by
  refine ⟨rfl, rfl, [(index, w.size)], rfl, ?_⟩
  intro it hit
  rw [List.mem_singleton] at hit
  subst hit
  exact ⟨hlow, hhigh, rfl⟩

theorem trans (h : Within str n b w w') (h' : Within str n b' w' w'') : Within str n b' w w'' := by
  have hsize : w'.size = w.size := by
    unfold Written.size
    rw [h.session]
    exact h.size
  refine ⟨?_, h'.size.trans hsize, ?_⟩
  . rw [h'.session, h.session]
  . have ⟨new, heq, hnew⟩ := h.writes
    have ⟨new', heq', hnew'⟩ := h'.writes
    refine ⟨new' ++ new, ?_, ?_⟩
    . rw [heq', heq, List.append_assoc]
    . intro it hit
      rcases List.mem_append.mp hit with hit | hit
      . have ⟨hlow, hhigh, hit⟩ := hnew' it hit
        exact ⟨hlow, hhigh, hit.trans hsize⟩
      . exact hnew it hit

theorem mono (h : Within str n b w w') (hle : n ≤ n') : Within str n' b w w' := by
  have ⟨new, heq, hnew⟩ := h.writes
  refine ⟨h.session, h.size, new, heq, ?_⟩
  intro it hit
  have ⟨hlow, hhigh, hsize⟩ := hnew it hit
  exact ⟨hlow, by omega, hsize⟩

theorem outBufferBytes_eq (h : Within str n b w w') : w'.outBufferBytes = w.outBufferBytes := by
  unfold outBufferBytes
  rw [h.session]

theorem wrote (h : Within str xs.length (w.session.outBuffer.write str xs) w w') : Wrote str xs w w' where
  session := by
    unfold outBufferBytes
    rw [h.session]
  writes := h.writes

end Within

theorem putDigits_eq (fuel : Nat) (w : Written) (str n value : Nat) (hfuel : value < fuel)
    : ∃ w', putDigits fuel w str n value = (w', (Memory.putDigits w.session.outBuffer str n value).2)
        ∧ Within str (Memory.putDigits w.session.outBuffer str n value).2
            (Memory.putDigits w.session.outBuffer str n value).1 w w' := by
  induction fuel generalizing w n value with
  | zero => omega
  | succ fuel ih =>
    have hput (m : Nat) (hm : n < m) := Within.put (n := m) w (UInt8.ofNat (48 + value % 10))
      (Nat.le_add_right str n) (Nat.add_lt_add_left hm str)
    rw [putDigits, Memory.putDigits]
    by_cases hrest : value / 10 = 0
    . rw [if_pos hrest, dif_pos hrest]
      exact ⟨_, rfl, hput (n + 1) (Nat.lt_succ_self n)⟩
    . rw [if_neg hrest, dif_neg hrest]
      obtain ⟨w', heq, hwithin⟩ := ih (w.put (str + n) (UInt8.ofNat (48 + value % 10))) (n + 1) (value / 10)
        (by omega)
      refine ⟨w', heq, (hput _ ?_).trans hwithin⟩
      rw [Memory.putDigits_eq]
      dsimp only
      omega

theorem swapDigits_eq (str count : Nat) (w : Written) (hcount : i + count ≤ n / 2)
    : Within str n ((List.range' i count).foldl (fun b i => Memory.exchange b str n i) w.session.outBuffer)
        w (swapDigits str n count i w) := by
  induction count generalizing i w with
  | zero => exact .refl str n w
  | succ count ih =>
    rw [List.range'_succ, List.foldl_cons]
    unfold swapDigits
    dsimp only
    have hleft := Within.put (n := n) w (w.bytes (str + ((n - 1) - i))) (Nat.le_add_right str i) (by omega)
    have hright := Within.put (n := n) (w.put (str + i) (w.bytes (str + ((n - 1) - i)))) (w.bytes (str + i))
      (Nat.le_add_right str ((n - 1) - i)) (by omega)
    have hrest := ih (i := i + 1)
      ((w.put (str + i) (w.bytes (str + ((n - 1) - i)))).put (str + ((n - 1) - i)) (w.bytes (str + i))) (by omega)
    exact (hleft.trans hright).trans hrest

theorem itoa_wrote (w : Written) (value : Nat)
    : ∃ w', w.itoa value = (w', (YAMemcached.itoa value).length)
        ∧ Wrote w.outBufferBytes (YAMemcached.itoa value ++ [32]) w w'
        ∧ w'.outBufferBytes = w.outBufferBytes := by
  obtain ⟨w', hdigits, hwithin⟩ := putDigits_eq (value + 1) w w.outBufferBytes 0 value (Nat.lt_succ_self _)
  have hmemory := Memory.itoa_eq w.session.outBuffer value w.outBufferBytes
  unfold Memory.itoa at hmemory
  generalize Memory.putDigits w.session.outBuffer w.outBufferBytes 0 value = written at *
  obtain ⟨b, n⟩ := written
  dsimp only at hdigits hwithin hmemory
  rw [Prod.mk.injEq] at hmemory
  obtain ⟨hbuffer, hn⟩ := hmemory
  have hblank : Within w.outBufferBytes (n + 1) (w'.session.outBuffer.write (w.outBufferBytes + n) [32]) w'
      (w'.put (w.outBufferBytes + n) 32) :=
    Within.put w' 32 (Nat.le_add_right w.outBufferBytes n) (Nat.lt_succ_self _)
  have hswaps := swapDigits_eq w.outBufferBytes (n / 2) (w'.put (w.outBufferBytes + n) 32)
    (Nat.le_of_eq (Nat.zero_add (n / 2)))
  have hall := ((hwithin.mono (Nat.le_succ n)).trans hblank).trans (hswaps.mono (Nat.le_succ n))
  have hbytes : w'.session.outBuffer = b := by rw [hwithin.session]
  have hput : (w'.put (w.outBufferBytes + n) 32).session.outBuffer = b.write (w.outBufferBytes + n) [32] := by
    rw [← hbytes]
    rfl
  have hlength : (YAMemcached.itoa value ++ [32]).length = n.succ := by
    rw [List.length_append, ← hn]
    rfl
  rw [hput, ← List.range_eq_range', hbuffer, ← hlength] at hall
  unfold itoa
  dsimp only
  rw [hdigits, ← hn]
  exact ⟨_, rfl, hall.wrote, hall.outBufferBytes_eq⟩

/-! ### Replies stay inside of the buffer -/

structure Appended (bytes : List UInt8) (w w' : Written) : Prop where
  wrote : Wrote w.outBufferBytes bytes w w'
  out : w'.outBufferBytes = w.outBufferBytes + bytes.length

namespace Appended

theorem nil (w : Written) : Appended [] w w := ⟨.nil _ w, rfl⟩

theorem copyNext (h : Appended xs w w') (chars : List UInt8)
    : Appended (xs ++ chars) w (w'.copyNext chars) where
  wrote := by
    have hcopy := Wrote.copy w' w'.outBufferBytes chars
    rw [h.out] at hcopy
    unfold Written.copyNext
    rw [h.out]
    exact (h.wrote.trans hcopy).advance _
  out := by
    unfold Written.copyNext
    rw [outBufferBytes_advance, outBufferBytes_copy, h.out, List.length_append, Nat.add_assoc]

theorem blank (h : Appended xs w w')
    : Appended (xs ++ [32]) w ((w'.put w'.outBufferBytes 32).advance 1) where
  wrote := by
    rw [h.out]
    exact (h.wrote.trans (Wrote.put _ _ _)).advance _
  out := by
    rw [outBufferBytes_advance, outBufferBytes_put, h.out, List.length_append]
    rfl

theorem lineEnd (h : Wrote w.outBufferBytes (xs ++ zs) w w') (hle : zs.length ≤ 2)
    (hout : w'.outBufferBytes = w.outBufferBytes + xs.length)
    : Appended (xs ++ [13, 10]) w
        (((w'.put w'.outBufferBytes 13).put (w'.outBufferBytes + 1) 10).advance 2) where
  wrote := by
    rw [hout]
    have hend := (Wrote.put w' (w.outBufferBytes + xs.length) 13).trans
      (Wrote.put _ (w.outBufferBytes + xs.length + 1) 10)
    exact (h.behind hend hle).advance _
  out := by
    rw [outBufferBytes_advance, outBufferBytes_put, outBufferBytes_put, hout, List.length_append]
    rfl

theorem newLine (h : Appended xs w w')
    : Appended (xs ++ [13, 10]) w
        (((w'.put w'.outBufferBytes 13).put (w'.outBufferBytes + 1) 10).advance 2) := by
  have hwrote := h.wrote
  rw [← List.append_nil xs] at hwrote
  exact lineEnd hwrote (Nat.zero_le _) h.out

theorem itoa (h : Appended xs w w') (value : Nat)
    : ∃ w'', w'.itoa value = (w'', (YAMemcached.itoa value).length)
        ∧ Wrote w.outBufferBytes ((xs ++ YAMemcached.itoa value) ++ [32]) w w''
        ∧ w''.outBufferBytes = w.outBufferBytes + xs.length := by
  have ⟨w'', heq, hwrote, hout⟩ := itoa_wrote w' value
  rw [h.out] at hwrote
  refine ⟨w'', heq, ?_, hout.trans h.out⟩
  rw [List.append_assoc]
  exact h.wrote.trans hwrote

theorem number (h : Appended xs w w') (value : Nat)
    : ∃ w'', w'.itoa value = (w'', (YAMemcached.itoa value).length)
        ∧ Appended (xs ++ YAMemcached.itoa value ++ [32]) w
          (w''.advance ((YAMemcached.itoa value).length + 1)) := by
  have ⟨w'', heq, hwrote, hout⟩ := h.itoa value
  refine ⟨w'', heq, hwrote.advance _, ?_⟩
  rw [outBufferBytes_advance, hout, List.length_append, List.length_append, List.length_singleton]
  omega

theorem lastNumber (h : Appended xs w w') (value : Nat)
    : ∃ w'' w3, w'.itoa value = (w'', (YAMemcached.itoa value).length)
        ∧ w3 = w''.advance (YAMemcached.itoa value).length
        ∧ Appended (xs ++ YAMemcached.itoa value ++ [13, 10]) w
          (((w3.put w3.outBufferBytes 13).put (w3.outBufferBytes + 1) 10).advance 2) := by
  have ⟨w'', heq, hwrote, hout⟩ := h.itoa value
  refine ⟨w'', _, heq, rfl, lineEnd (hwrote.advance _) (by decide) ?_⟩
  rw [outBufferBytes_advance, hout, List.length_append, Nat.add_assoc]

end Appended

/--
From `w` to `w'` nothing was written outside of the buffer or over the replies in it, and there is room for
the zero behind them.
-/
structure InBounds (w w' : Written) : Prop where
  writes : ∃ new, w'.writes = new ++ w.writes ∧ ∀ it ∈ new, it.1 < it.2
  kept : ∀ i < w.outBufferBytes, w'.bytes i = w.bytes i
  le : w.outBufferBytes ≤ w'.outBufferBytes
  lt : w'.outBufferBytes < w'.size

namespace InBounds

theorem refl (h : w.outBufferBytes < w.size) : InBounds w w :=
  ⟨⟨[], rfl, by simp⟩, fun _ _ => rfl, Nat.le_refl _, h⟩

theorem trans (h : InBounds w w') (h' : InBounds w' w'') : InBounds w w'' where
  writes := by
    have ⟨new, heq, hnew⟩ := h.writes
    have ⟨new', heq', hnew'⟩ := h'.writes
    refine ⟨new' ++ new, ?_, ?_⟩
    . rw [heq', heq, List.append_assoc]
    . intro it hit
      rcases List.mem_append.mp hit with hit | hit
      . exact hnew' it hit
      . exact hnew it hit
  kept i hi := (h'.kept i (Nat.lt_of_lt_of_le hi h.le)).trans (h.kept i hi)
  le := Nat.le_trans h.le h'.le
  lt := h'.lt

end InBounds

theorem grow_eq (h : w.outBufferBytes < w.size) (len : Nat)
    : ∃ w', w.grow len = .ok w' ∧ growOutBuffer len (w.outBufferBytes + len + 1) w.session = .ok w'.session
        ∧ w'.writes = w.writes ∧ w'.bytes = w.bytes ∧ w'.outBufferBytes = w.outBufferBytes
        ∧ w.outBufferBytes + len ≤ w'.size := by
  have hroom : w.session.HasRoom := ⟨Nat.zero_lt_of_lt h, Nat.le_of_lt h⟩
  have hfuel : w.session.outBufferBytes + len < w.outBufferBytes + len + 1 + w.session.outBuffer.size := by
    unfold outBufferBytes
    omega
  obtain ⟨size, heq, _, hle⟩ := growOutBuffer_eq len _ w.session hroom hfuel (Nat.succ_pos _)
  unfold grow
  rw [heq, Except.ok_bind]
  exact ⟨_, rfl, rfl, rfl, rfl, rfl, hle⟩

theorem Wrote.inBounds (h : Wrote offset xs w w') (hlow : w.outBufferBytes ≤ offset)
    (hhigh : offset + xs.length ≤ w.size) (hle : w.outBufferBytes ≤ w'.outBufferBytes)
    (hlt : w'.outBufferBytes < w.size) : InBounds w w' where
  writes := by
    have ⟨new, heq, hnew⟩ := h.writes
    refine ⟨new, heq, ?_⟩
    intro it hit
    have ⟨_, hend, hsize⟩ := hnew it hit
    omega
  kept i hi := by
    unfold bytes
    rw [h.session]
    exact Buffer.write_bytes_of_lt _ _ _ (Nat.lt_of_lt_of_le hi hlow)
  le := hle
  lt := by
    rw [h.size]
    exact hlt

theorem Appended.inBounds (h : Appended xs w' w'') (hwrites : w'.writes = w.writes) (hbytes : w'.bytes = w.bytes)
    (hout : w'.outBufferBytes = w.outBufferBytes) (hlt : w.outBufferBytes + xs.length < w'.size)
    : InBounds w w'' := by
  have hroom := h.wrote.inBounds (Nat.le_refl _) (by omega) (by have := h.out; omega) (by have := h.out; omega)
  refine ⟨?_, ?_, ?_, hroom.lt⟩
  . rw [← hwrites]
    exact hroom.writes
  . rw [← hbytes, ← hout]
    exact hroom.kept
  . rw [← hout]
    exact hroom.le

theorem Appended.session (h : Appended xs w w')
    : w'.session = { w.session with
        outBuffer := w.session.outBuffer.write w.session.outBufferBytes xs
        outBufferBytes := w.session.outBufferBytes + xs.length } := by
  rw [h.wrote.session, h.out]
  rfl

theorem exists_reply (h : w.outBufferBytes < w.size) (hlen : xs.length < len) {f : Written → Except Stop Written}
    (hf : ∀ w, ∃ w', f w = .ok w' ∧ Appended xs w w')
    : ∃ w', (w.grow len >>= f) = .ok w' ∧ YAMemcached.reply len xs w.session = .ok w'.session
        ∧ InBounds w w' := by
  obtain ⟨w', heq, hsession, hwrites, hbytes, hout, hroom⟩ := grow_eq h len
  obtain ⟨w'', heq', happended⟩ := hf w'
  refine ⟨w'', ?_, ?_, happended.inBounds hwrites hbytes hout (by omega)⟩
  . rw [heq, Except.ok_bind]
    exact heq'
  . unfold YAMemcached.reply
    have hfuel : w.session.outBufferBytes = w.outBufferBytes := rfl
    rw [hfuel, hsession, Except.ok_bind, happended.session]

theorem reply_eq (h : w.outBufferBytes < w.size) (text : List UInt8)
    : ∃ w', w.reply text = .ok w' ∧ YAMemcached.reply (text.length + 1) text w.session = .ok w'.session
        ∧ InBounds w w' :=
  exists_reply h (Nat.lt_succ_self _) (fun w => ⟨_, rfl, (Appended.nil w).copyNext text⟩)

theorem replyText_eq (h : w.outBufferBytes < w.size) (text : List UInt8)
    : ∃ w', w.replyText text = .ok w' ∧ YAMemcached.replyText text w.session = .ok w'.session
        ∧ InBounds w w' := by
  unfold replyText YAMemcached.replyText
  by_cases hflags : w.session.requestInfo.requestFlags &&& NOREPLY = 0
  . rw [if_pos hflags, if_pos hflags]
    exact reply_eq h text
  . rw [if_neg hflags, if_neg hflags]
    exact ⟨w, rfl, rfl, .refl h⟩

theorem replyValue_eq (h : w.outBufferBytes < w.size) (key : List UInt8) (sValue : StorageValue)
    : ∃ w', w.replyValue key sValue = .ok w'
        ∧ YAMemcached.reply (key.length + sValue.value.length + SOME_TEXT_LEN) (valueReply key sValue) w.session
          = .ok w'.session
        ∧ InBounds w w' := by
  have hlen : (valueReply key sValue).length < key.length + sValue.value.length + SOME_TEXT_LEN :=
    length_valueReply_lt key sValue
  apply exists_reply h hlen
  intro w
  have hkey := (((Appended.nil w).copyNext VALUE).copyNext (strncpy key)).blank
  obtain ⟨w1, heq1, hflags⟩ := hkey.number (sValue.flags % 2 ^ 32)
  obtain ⟨w2, w3, heq2, heq3, hsize⟩ := hflags.lastNumber (sValue.value.length % 2 ^ 64)
  refine ⟨_, ?_, (hsize.copyNext (strncpy sValue.value)).newLine⟩
  dsimp only
  rw [heq1]
  dsimp only
  rw [heq2, heq3]

theorem replyStats_eq (h : w.outBufferBytes < w.size) (counter : Nat) (hcounter : counter < 2 ^ 64)
    : ∃ w', w.replyStats counter = .ok w'
        ∧ YAMemcached.reply SOME_TEXT_LEN (YAMemcached.itoa counter ++ [13, 10]) w.session = .ok w'.session
        ∧ InBounds w w' := by
  have hlen : (YAMemcached.itoa counter ++ [13, 10]).length < SOME_TEXT_LEN := by
    have hle := length_itoa_le counter 20 (by omega) (by omega)
    unfold SOME_TEXT_LEN
    rw [List.length_append, List.length_cons, List.length_singleton]
    omega
  apply exists_reply h hlen
  intro w
  obtain ⟨w', w3, heq, heq3, hend⟩ := (Appended.nil w).lastNumber counter
  refine ⟨_, ?_, hend⟩
  rw [heq, heq3]

/-! ### Requests stay inside of the buffer -/

section Requests

variable {τ : Type} (ops : CountingHashTable τ) (casLocks : Nat → Nat) {t : CalledTable τ}

def Agrees (w : Written) (x : Except Stop (Written × CalledTable τ)) (y : Except Stop (Session × CalledTable τ))
    : Prop :=
  ∃ w' t', x = .ok (w', t') ∧ y = .ok (w'.session, t') ∧ InBounds w w'

theorem Agrees.bind {x : Except Stop Written} {y : Except Stop Session}
    (h : ∃ w', x = .ok w' ∧ y = .ok w'.session ∧ InBounds w w') (t : CalledTable τ)
    : Agrees w (x >>= fun w => .ok (w, t)) (y >>= fun s => .ok (s, t)) := by
  obtain ⟨w', hx, hy, hbounds⟩ := h
  rw [hx, hy]
  exact ⟨w', t, rfl, rfl, hbounds⟩

theorem processCas_agrees (h : w.outBufferBytes < w.size)
    : Agrees w (w.processCas ops casLocks t) (YAMemcached.processCas ops casLocks w.session t) := by
  unfold processCas YAMemcached.processCas
  dsimp only
  cases (ops.getLocked t.table w.session.key).1 with
  | some replacedValue =>
    dsimp only
    by_cases hticket : w.session.sValue.casTicket = replacedValue.casTicket
    . rw [if_pos hticket, if_pos hticket]
      exact .bind (replyText_eq h STORED) _
    . rw [if_neg hticket, if_neg hticket]
      exact .bind (replyText_eq h NOT_STORED) _
  | none => exact .bind (replyText_eq h NOT_STORED) _

theorem processKey_agrees (h : w.outBufferBytes < w.size) (key : List UInt8)
    : Agrees w (processKey ops key w t) (YAMemcached.processKey ops key w.session t) := by
  unfold processKey YAMemcached.processKey
  dsimp only
  cases (ops.get t.table key).1 with
  | some sValue => exact .bind (replyValue_eq h key sValue) _
  | none => exact ⟨w, _, rfl, rfl, .refl h⟩

/--
The induction is on the keys, and each of them leaves room for the zero behind the replies.
-/
theorem processKeys_agrees (h : w.outBufferBytes < w.size) (keys : List (List UInt8))
    : Agrees w (keys.foldlM (fun (w, t) key => processKey ops key w t) (w, t))
        (keys.foldlM (fun (s, t) key => YAMemcached.processKey ops key s t) (w.session, t)) := by
  induction keys generalizing w t with
  | nil => exact ⟨w, t, rfl, rfl, .refl h⟩
  | cons key keys ih =>
    obtain ⟨w1, t1, heq, hsession, hbounds⟩ := processKey_agrees ops (t := t) h key
    obtain ⟨w2, t2, heq', hsession', hbounds'⟩ := ih (t := t1) hbounds.lt
    refine ⟨w2, t2, ?_, ?_, hbounds.trans hbounds'⟩
    . rw [List.foldlM_cons]
      dsimp only
      rw [heq, Except.ok_bind]
      exact heq'
    . rw [List.foldlM_cons]
      dsimp only
      rw [hsession, Except.ok_bind]
      exact hsession'

theorem processGet_agrees (h : w.outBufferBytes < w.size)
    : Agrees w (w.processGet ops t) (YAMemcached.processGet ops w.session t) := by
  unfold processGet YAMemcached.processGet
  dsimp only
  obtain ⟨w1, t1, heq, hsession, hbounds⟩ := processKeys_agrees ops (t := t) h
    (w.session.key :: (w.session.requestInfo.getKeysList.getD []).map
      (fun it => w.session.inBuffer.slice it.1 it.2))
  obtain ⟨w2, heq', hsession', hbounds'⟩ := reply_eq hbounds.lt END
  rw [heq, hsession, Except.ok_bind, Except.ok_bind]
  dsimp only
  rw [heq', hsession']
  exact ⟨w2, t1, rfl, rfl, hbounds.trans hbounds'⟩

theorem processStats_inBounds (h : w.outBufferBytes < w.size)
    : ∃ w', w.processStats ops t = .ok (w', t) ∧ InBounds w w'
        ∧ (ops.count t.table < 2 ^ 64 → YAMemcached.processStats ops w.session t = .ok (w'.session, t)) := by
  obtain ⟨w', heq, hsession, hbounds⟩ := replyStats_eq h (ops.count t.table % 2 ^ 64)
    (Nat.mod_lt _ (Nat.two_pow_pos 64))
  unfold processStats YAMemcached.processStats
  rw [heq, Except.ok_bind]
  refine ⟨w', rfl, hbounds, ?_⟩
  intro hcount
  rw [Nat.mod_eq_of_lt hcount] at hsession
  rw [hsession, Except.ok_bind]

theorem executeRequest_inBounds (h : w.outBufferBytes < w.size)
    : ∃ w' t', w.executeRequest ops casLocks t = .ok (w', t') ∧ InBounds w w'
        ∧ (ops.count t.table < 2 ^ 64
          → YAMemcached.executeRequest ops casLocks w.session t = .ok (w'.session, t')) := by
  have of_agrees {x : Except Stop (Written × CalledTable τ)} {y : Except Stop (Session × CalledTable τ)}
      (hagrees : Agrees w x y)
      : ∃ w' t', x = .ok (w', t') ∧ InBounds w w' ∧ (ops.count t.table < 2 ^ 64 → y = .ok (w'.session, t')) := by
    obtain ⟨w', t', hx, hy, hbounds⟩ := hagrees
    exact ⟨w', t', hx, hbounds, fun _ => hy⟩
  unfold executeRequest YAMemcached.executeRequest
  cases w.session.requestInfo.requestType with
  | SET => exact of_agrees (.bind (replyText_eq h STORED) _)
  | ADD => exact of_agrees (.bind (replyText_eq h _) _)
  | REPLACE => exact of_agrees (.bind (replyText_eq h _) _)
  | CAS => exact of_agrees (processCas_agrees ops casLocks h)
  | GET => exact of_agrees (processGet_agrees ops h)
  | GETS => exact of_agrees (processGet_agrees ops h)
  | STATS =>
    obtain ⟨w', hstats⟩ := processStats_inBounds ops h
    exact ⟨w', t, hstats⟩
  | DELETE => exact of_agrees (.bind (replyText_eq h _) _)
  | _ => exact ⟨w, t, rfl, .refl h, fun _ => rfl⟩

theorem dispatch_inBounds {s : Session} (h : s.outBufferBytes < s.outBuffer.size) (t : CalledTable τ)
    : ∃ w t', dispatch ops casLocks s t = .ok (w, t') ∧ (∀ it ∈ w.writes, it.1 < it.2)
        ∧ (∀ i < s.outBufferBytes, w.session.outBuffer.bytes i = s.outBuffer.bytes i)
        ∧ w.session.outBufferBytes < w.session.outBuffer.size := by
  obtain ⟨w, t', heq, hbounds, _⟩ := executeRequest_inBounds ops casLocks (t := t) (w := ⟨s, []⟩) h
  have hend := (Wrote.put w w.outBufferBytes 0).inBounds (Nat.le_refl _) hbounds.lt (Nat.le_refl _) hbounds.lt
  have hdispatched := hbounds.trans hend
  have ⟨new, hnew, hlt⟩ := hdispatched.writes
  rw [List.append_nil] at hnew
  unfold dispatch
  rw [heq, Except.ok_bind]
  refine ⟨_, t', rfl, ?_, hdispatched.kept, hdispatched.lt⟩
  rw [hnew]
  exact hlt

/--
The buffer for replies has room for one more character when `get a` is dispatched.
-/
def fullSession : Session :=
  { Session.getting with outBufferBytes := MIN_OUT_BUFFER_SIZE - 1 }

theorem dispatch_inBounds_get
    : ∃ w t', dispatch (valueTable [120]) (fun _ => 0) fullSession ⟨(), []⟩ = .ok (w, t') ∧ t'.calls = [.get [97]]
        ∧ w.session.outBuffer.size = 2 * MIN_OUT_BUFFER_SIZE ∧ (∀ it ∈ w.writes, it.1 < it.2)
        ∧ (∀ i < MIN_OUT_BUFFER_SIZE - 1, w.session.outBuffer.bytes i = fullSession.outBuffer.bytes i)
        ∧ w.session.outBufferBytes < w.session.outBuffer.size := by
  have hgrown : ∃ w t', dispatch (valueTable [120]) (fun _ => 0) fullSession ⟨(), []⟩ = .ok (w, t')
      ∧ t'.calls = [.get [97]] ∧ w.session.outBuffer.size = 2 * MIN_OUT_BUFFER_SIZE :=
    ⟨_, _, rfl, rfl, rfl⟩
  obtain ⟨w, t', heq, hcalls, hsize⟩ := hgrown
  have hroom : fullSession.outBufferBytes < fullSession.outBuffer.size := by decide
  obtain ⟨w', t'', heq', hbounds⟩ := dispatch_inBounds (valueTable [120]) (fun _ => 0) hroom ⟨(), []⟩
  rw [heq] at heq'
  cases heq'
  exact ⟨w, t', heq, hcalls, hsize, hbounds⟩

theorem parsingData_dispatch {s : Session} (h : s.outBufferBytes < s.outBuffer.size)
    (hcount : ops.count t.table < 2 ^ 64)
    (hlen : sizeSub (sizeSub s.inBufferBytes s.inBufferOffset) s.headerLen ≥ s.dataLen)
    (hend : ¬ (s.dataLen ≠ 0 ∧ (s.inBuffer.bytes (sizeSub (sizeAdd s.dataOffset s.dataLen) 2) ≠ 13
      ∨ s.inBuffer.bytes (sizeSub (sizeAdd s.dataOffset s.dataLen) 1) ≠ 10)))
    : ∃ w t', dispatch ops casLocks { s with
          dataBytesRequired := 0
          inBufferOffset := sizeAdd s.inBufferOffset (sizeAdd s.dataLen s.headerLen) } t = .ok (w, t')
        ∧ parsingData ops casLocks s t = .ok (some true, { w.session with
          requestInfo := { w.session.requestInfo with state := .DONE_STATE } }, t') := by
  obtain ⟨w, t', heq, _, hsession⟩ := executeRequest_inBounds ops casLocks (t := t) (w := ⟨{ s with
    dataBytesRequired := 0
    inBufferOffset := sizeAdd s.inBufferOffset (sizeAdd s.dataLen s.headerLen) }, []⟩) h
  unfold dispatch parsingData
  rw [if_pos hlen, if_neg hend, heq]
  dsimp only at hsession ⊢
  rw [hsession hcount]
  exact ⟨_, t', rfl, rfl⟩

end Requests

end Written

end YAMemcached
