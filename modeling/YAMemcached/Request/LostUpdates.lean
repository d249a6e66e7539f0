import YAMemcached.Common
import YAMemcached.Util.Transition

/-!
This module contains the tickets of `cas`: what the requests that store a value do to the ticket of an
item, where every access to the table is atomic.
-/

namespace YAMemcached

variable {K : Type} [DecidableEq K]

abbrev Items (K : Type) := K → Option StorageValue

namespace Items

def insertOrSet (items : Items K) (key : K) (value : StorageValue) : Bool × Items K :=
  ((items key).isNone, Function.update items key (some value))

def insert (items : Items K) (key : K) (value : StorageValue) : Bool × Items K :=
  if (items key).isNone then (true, Function.update items key (some value)) else (false, items)

def set (items : Items K) (key : K) (value : StorageValue) : Bool × Items K :=
  if (items key).isSome then (true, Function.update items key (some value)) else (false, items)

def compareAndSet (items : Items K) (key : K) (sValue : StorageValue) : Bool × Items K :=
  match items key with
  | some replacedValue =>
    if sValue.casTicket = replacedValue.casTicket then
      let sValue := { sValue with casTicket := sizeAdd sValue.casTicket 1 }
      (true, Function.update items key (some sValue))
    else
      (false, items)
  | none => (false, items)

end Items

/--
A request of a client about one key. `gets` observes the ticket of the item.
-/
inductive StoreCommand where
  | gets
  | set
  | add
  | replace
  | cas (casTicket : Nat)
deriving DecidableEq, Repr

structure StoreRequest (K : Type) where
  client : Nat
  key : K
  command : StoreCommand
  data : List UInt8
  flags : Nat

namespace StoreRequest

def requestInfo (r : StoreRequest K) : RequestInfo :=
  let info := RequestInfo.zero.reset
  match r.command with
  | .gets => { info with requestType := .GETS }
  | .set => { info with requestType := .SET, flags := r.flags, dataLen := r.data.length }
  | .add => { info with requestType := .ADD, flags := r.flags, dataLen := r.data.length }
  | .replace => { info with requestType := .REPLACE, flags := r.flags, dataLen := r.data.length }
  | .cas casTicket =>
    { info with
      requestType := .CAS
      flags := r.flags
      dataLen := r.data.length
      casTicket := casTicket }

def execute (items : Items K) (r : StoreRequest K) : Bool × Items K :=
  let sValue := { value := r.data, casTicket := r.requestInfo.casTicket, flags := r.requestInfo.flags }
  match r.requestInfo.requestType with
  | .SET => (true, (items.insertOrSet r.key sValue).2)
  | .ADD => items.insert r.key sValue
  | .REPLACE => items.set r.key sValue
  | .CAS => items.compareAndSet r.key sValue
  | _ => (false, items)

/--
The requests whose value gets the ticket that `RequestInfo::reset` leaves.
-/
def isCas (r : StoreRequest K) : Prop := ∃ casTicket, r.command = .cas casTicket

end StoreRequest

def Items.ticket (items : Items K) (key : K) : Option Nat := (items key).map StorageValue.casTicket

def Items.Wide (items : Items K) : Prop := ∀ key ticket, items.ticket key = some ticket → ticket < 2 ^ 64

theorem StoreRequest.execute_cases (items : Items K) (r : StoreRequest K)
    : ((r.execute items).1 = false ∧ (r.execute items).2 = items)
      ∨ (∃ value, (r.execute items).1 = true
        ∧ (r.execute items).2 = Function.update items r.key (some value)
        ∧ ((value.casTicket = 0 ∧ ¬r.isCas)
          ∨ ∃ ticket, r.command = .cas ticket ∧ items.ticket r.key = some ticket
            ∧ value.casTicket = (ticket + 1) % 2 ^ 64)) := by
  unfold execute requestInfo isCas
  cases hcommand : r.command with
  | gets => exact .inl ⟨rfl, rfl⟩
  | set =>
    refine .inr ⟨_, rfl, rfl, .inl ⟨rfl, ?_⟩⟩
    intro ⟨_, heq⟩
    nomatch heq
  | add =>
    dsimp only [Items.insert]
    split
    . refine .inr ⟨_, rfl, rfl, .inl ⟨rfl, ?_⟩⟩
      intro ⟨_, heq⟩
      nomatch heq
    . exact .inl ⟨rfl, rfl⟩
  | replace =>
    dsimp only [Items.set]
    split
    . refine .inr ⟨_, rfl, rfl, .inl ⟨rfl, ?_⟩⟩
      intro ⟨_, heq⟩
      nomatch heq
    . exact .inl ⟨rfl, rfl⟩
  | cas ticket =>
    dsimp only [Items.compareAndSet]
    split
    . next replacedValue hfound =>
      split
      . next hticket =>
        refine .inr ⟨_, rfl, rfl, .inr ⟨ticket, rfl, ?_, rfl⟩⟩
        unfold Items.ticket
        rw [hfound, Option.map_some, ← hticket]
      . exact .inl ⟨rfl, rfl⟩
    . exact .inl ⟨rfl, rfl⟩

/-! ### Runs -/

abbrev StoreRun (K : Type) [DecidableEq K] :=
  Transition.Run Items.Wide (fun items (r : StoreRequest K) items' => items' = (r.execute items).2)

namespace StoreRun

variable (run : StoreRun K)

def Stores (key : K) (i : Nat) : Prop :=
  i < run.len ∧ (run.label i).key = key ∧ ((run.label i).execute (run.state i)).1 = true

instance (key : K) (i : Nat) : Decidable (Stores run key i) :=
  inferInstanceAs (Decidable (_ ∧ _ ∧ _))

def Successive (key : K) (i j : Nat) : Prop :=
  i < j ∧ Stores run key i ∧ Stores run key j ∧ ∀ x, i < x → x < j → ¬Stores run key x

def Observes (key : K) (client i : Nat) : Prop :=
  (run.label i).command = .gets ∧ (run.label i).key = key ∧ (run.label i).client = client

/--
The client observed the key at `i`, and not again before `j`.
-/
def LastObserved (key : K) (client i j : Nat) : Prop :=
  i < j ∧ Observes run key client i ∧ ∀ x, i < x → x < j → ¬Observes run key client x

def Succeeds (key : K) (client ticket j : Nat) : Prop :=
  Stores run key j ∧ (run.label j).client = client ∧ (run.label j).command = .cas ticket

/--
A `cas` only succeeds if there was no update since its client observed the ticket, and two stores after
each other leave different tickets.
-/
structure NoLostUpdates : Prop where
  tickets : ∀ key i j, Successive run key i j →
    (run.state (i + 1)).ticket key ≠ (run.state (j + 1)).ticket key
  updates : ∀ key client ticket i j, Succeeds run key client ticket j →
    LastObserved run key client i j → (run.state i).ticket key = some ticket →
      ∀ x, i < x → x < j → ¬Stores run key x

def storeCount (key : K) (i : Nat) : Nat → Nat
  | 0 => 0
  | n + 1 => storeCount key i n + if i ≤ n ∧ Stores run key n then 1 else 0

/--
Of two stores after each other the second is a `cas`, or the first is one whose ticket does not wrap
around. Between the observation of a ticket and the `cas` that succeeds with it all stores are `cas`, and
there are less of them than tickets.
-/
structure StoresByCas : Prop where
  tickets : ∀ key i j, Successive run key i j →
    (run.label j).isCas ∨ ∃ ticket, ticket + 1 ≠ 2 ^ 64 ∧ (run.label i).command = .cas ticket
  updates : ∀ key client ticket i j, Succeeds run key client ticket j →
    LastObserved run key client i j → (run.state i).ticket key = some ticket →
      (∀ x, i < x → x < j → Stores run key x → (run.label x).isCas)
        ∧ storeCount run key i j < 2 ^ 64

variable {run} {key : K}

theorem wide (run : StoreRun K) (i : Nat) (hi : i ≤ run.len) : (run.state i).Wide := by
  apply run.invariant (fun _ h => h) _ i hi
  intro items r items' hwide heq key ticket hticket
  rw [heq] at hticket
  cases r.execute_cases items with
  | inl hkept =>
    rw [hkept.2] at hticket
    exact hwide key ticket hticket
  | inr hstored =>
    have ⟨value, _, hupdate, hvalue⟩ := hstored
    unfold Items.ticket at hticket
    rw [hupdate, Function.update_apply] at hticket
    split at hticket
    . rw [Option.map_some, Option.some.injEq] at hticket
      obtain ⟨hzero, _⟩ | ⟨_, _, _, hnext⟩ := hvalue
      . omega
      . omega
    . exact hwide key ticket hticket

theorem ticket_succ_of_not_stores (key : K) (hi : i < run.len) (h : ¬Stores run key i)
    : (run.state (i + 1)).ticket key = (run.state i).ticket key := by
  rw [run.step_state i hi]
  cases (run.label i).execute_cases (run.state i) with
  | inl hkept => rw [hkept.2]
  | inr hstored =>
    have ⟨value, hresult, hupdate, _⟩ := hstored
    have hne : key ≠ (run.label i).key := fun heq => h ⟨hi, heq.symm, hresult⟩
    unfold Items.ticket
    rw [hupdate, Function.update_of_ne hne]

theorem Stores.ticket_succ (h : Stores run key i)
    : ((run.state (i + 1)).ticket key = some 0 ∧ ¬(run.label i).isCas)
      ∨ ∃ ticket, (run.label i).command = .cas ticket ∧ (run.state i).ticket key = some ticket
        ∧ (run.state (i + 1)).ticket key = some ((ticket + 1) % 2 ^ 64) := by
  have ⟨hi, hkey, hresult⟩ := h
  rw [run.step_state i hi]
  cases (run.label i).execute_cases (run.state i) with
  | inl hkept =>
    rw [hkept.1] at hresult
    nomatch hresult
  | inr hstored =>
    have ⟨value, _, hupdate, hvalue⟩ := hstored
    have hticket : ((run.label i).execute (run.state i)).2.ticket key = some value.casTicket := by
      unfold Items.ticket
      rw [hupdate, hkey, Function.update_self]
      rfl
    rw [hkey] at hvalue
    obtain ⟨hzero, hcas⟩ | ⟨ticket, hcommand, hold, hnext⟩ := hvalue
    . rw [hzero] at hticket
      exact .inl ⟨hticket, hcas⟩
    . rw [hnext] at hticket
      exact .inr ⟨ticket, hcommand, hold, hticket⟩

theorem Successive.ticket_eq (h : Successive run key i j)
    : (run.state j).ticket key = (run.state (i + 1)).ticket key := by
  have ⟨hlt, _, hstores, hbetween⟩ := h
  have hle (n : Nat) (hn : i + 1 + n ≤ j)
      : (run.state (i + 1 + n)).ticket key = (run.state (i + 1)).ticket key := by
    induction n with
    | zero => rfl
    | succ n ih =>
      have hlen := hstores.1
      have hstep := ticket_succ_of_not_stores key (i := i + 1 + n) (by omega)
        (hbetween (i + 1 + n) (by omega) (by omega))
      rw [← Nat.add_assoc, hstep]
      exact ih (by omega)
  have heq := hle (j - (i + 1)) (by omega)
  have hj : i + 1 + (j - (i + 1)) = j := by omega
  rw [hj] at heq
  exact heq

theorem Successive.tickets_iff (h : Successive run key i j)
    : (run.state (i + 1)).ticket key ≠ (run.state (j + 1)).ticket key
        ↔ (run.label j).isCas ∨ ∃ ticket, ticket + 1 ≠ 2 ^ 64 ∧ (run.label i).command = .cas ticket := by
  have hsame := h.ticket_eq
  have ⟨hlt, hi, hj, _⟩ := h
  cases hj.ticket_succ with
  | inr hcas =>
    have ⟨ticket, hcommand, hold, hnew⟩ := hcas
    have hwide := wide run j (Nat.le_of_lt hj.1) key ticket hold
    have hne : (run.state (i + 1)).ticket key ≠ (run.state (j + 1)).ticket key := by
      rw [← hsame, hold, hnew]
      intro heq
      rw [Option.some.injEq] at heq
      omega
    exact ⟨fun _ => .inl ⟨ticket, hcommand⟩, fun _ => hne⟩
  | inl hplain =>
    rw [hplain.1]
    cases hi.ticket_succ with
    | inl hzero =>
      rw [hzero.1]
      constructor
      . intro hne
        exact absurd rfl hne
      . intro hcas
        obtain hcas | ⟨ticket, _, hcommand⟩ := hcas
        . exact absurd hcas hplain.2
        . exact absurd ⟨ticket, hcommand⟩ hzero.2
    | inr hcas =>
      have ⟨ticket, hcommand, hold, hnew⟩ := hcas
      have hwide := wide run i (Nat.le_of_lt hi.1) key ticket hold
      rw [hnew, ne_eq, Option.some.injEq]
      constructor
      . intro hne
        exact .inr ⟨ticket, by omega, hcommand⟩
      . intro hcas
        obtain hcas | ⟨ticket', hwrap, hcommand'⟩ := hcas
        . exact absurd hcas hplain.2
        . rw [hcommand] at hcommand'
          cases hcommand'
          omega

theorem ticket_of_cas (hticket : (run.state i).ticket key = some ticket) (hle : i ≤ run.len) (n : Nat)
    (hn : i + n ≤ run.len) (hcas : ∀ x, i ≤ x → x < i + n → Stores run key x → (run.label x).isCas)
    : (run.state (i + n)).ticket key
        = some ((ticket + storeCount run key i (i + n)) % 2 ^ 64) := by
  induction n with
  | zero =>
    have hzero (m : Nat) (hm : m ≤ i) : storeCount run key i m = 0 := by
      induction m with
      | zero => rfl
      | succ m ih =>
        unfold storeCount
        rw [ih (by omega), if_neg (by omega)]
    have hwide := wide run i hle key ticket hticket
    rw [Nat.add_zero, hzero i (Nat.le_refl i), Nat.add_zero, Nat.mod_eq_of_lt hwide]
    exact hticket
  | succ n ih =>
    have hih := ih (by omega) (fun x hlow hhigh => hcas x hlow (by omega))
    rw [← Nat.add_assoc]
    unfold storeCount
    by_cases hstores : Stores run key (i + n)
    . rw [if_pos ⟨by omega, hstores⟩]
      cases hstores.ticket_succ with
      | inl hplain => exact absurd (hcas _ (by omega) (by omega) hstores) hplain.2
      | inr hnext =>
        have ⟨ticket', _, hold, hnew⟩ := hnext
        rw [hih, Option.some.injEq] at hold
        rw [hnew, Option.some.injEq]
        omega
    . rw [if_neg (fun h => hstores h.2)]
      rw [ticket_succ_of_not_stores key (by omega) hstores]
      exact hih

theorem storeCount_pos (hi : i ≤ x) (hx : Stores run key x) (n : Nat) (hn : x < n)
    : 0 < storeCount run key i n := by
  induction n with
  | zero => omega
  | succ n ih =>
    unfold storeCount
    cases Nat.eq_or_lt_of_le (Nat.le_of_lt_succ hn) with
    | inl heq =>
      subst heq
      rw [if_pos ⟨hi, hx⟩]
      omega
    | inr hlt =>
      have := ih hlt
      omega

theorem storeCount_eq_zero (n : Nat) (h : ∀ x, i ≤ x → x < n → ¬Stores run key x)
    : storeCount run key i n = 0 := by
  induction n with
  | zero => rfl
  | succ n ih =>
    unfold storeCount
    rw [ih (fun x hlow hhigh => h x hlow (by omega))]
    rw [if_neg (fun hstores => h n hstores.1 (by omega) hstores.2)]

theorem Observes.not_stores (h : Observes run key client i) (key' : K) : ¬Stores run key' i := by
  intro ⟨_, _, hresult⟩
  have ⟨hcommand, _, _⟩ := h
  cases (run.label i).execute_cases (run.state i) with
  | inl hkept =>
    rw [hkept.1] at hresult
    nomatch hresult
  | inr hstored =>
    have heq : (run.label i).execute (run.state i) = (false, run.state i) := by
      unfold StoreRequest.execute StoreRequest.requestInfo
      rw [hcommand]
    rw [heq] at hresult
    nomatch hresult

theorem Succeeds.updates_iff (h : Succeeds run key client ticket j)
    (hobserved : LastObserved run key client i j) (hticket : (run.state i).ticket key = some ticket)
    : (∀ x, i < x → x < j → ¬Stores run key x)
        ↔ (∀ x, i < x → x < j → Stores run key x → (run.label x).isCas)
          ∧ storeCount run key i j < 2 ^ 64 := by
  have ⟨hlt, hgets, _⟩ := hobserved
  have ⟨hstores, _, hcommand⟩ := h
  have hlen := hstores.1
  have hfirst := hgets.not_stores key
  constructor
  . intro hnone
    constructor
    . intro x hlow hhigh hx
      exact absurd hx (hnone x hlow hhigh)
    . rw [storeCount_eq_zero]
      . decide
      . intro x hlow hhigh
        cases Nat.eq_or_lt_of_le hlow with
        | inl heq =>
          subst heq
          exact hfirst
        | inr hlt => exact hnone x hlt hhigh
  . intro ⟨hcas, hcount⟩ x hlow hhigh hx
    have hpos := storeCount_pos (Nat.le_of_lt hlow) hx j hhigh
    have hj : i + (j - i) = j := by omega
    have hreach := ticket_of_cas hticket (by omega) (j - i) (by omega) (by
      intro y hy hyj hystores
      cases Nat.eq_or_lt_of_le hy with
      | inl heq =>
        subst heq
        exact absurd hystores hfirst
      | inr hlt => exact hcas y hlt (by omega) hystores)
    rw [hj] at hreach
    have hwide := wide run i (by omega) key ticket hticket
    cases hstores.ticket_succ with
    | inl hplain => exact hplain.2 ⟨ticket, hcommand⟩
    | inr hsuccess =>
      have ⟨ticket', hcommand', hold, _⟩ := hsuccess
      rw [hcommand] at hcommand'
      cases hcommand'
      rw [hold, Option.some.injEq] at hreach
      omega

/--
No update is lost exactly if the stores that matter are made by `cas`.
-/
theorem noLostUpdates_iff {K : Type} [DecidableEq K] (run : StoreRun K)
    : NoLostUpdates run ↔ StoresByCas run := by
  constructor
  . intro h
    constructor
    . intro key i j hsuccessive
      exact hsuccessive.tickets_iff.mp (h.tickets key i j hsuccessive)
    . intro key client ticket i j hsucceeds hobserved hticket
      exact (hsucceeds.updates_iff hobserved hticket).mp
        (h.updates key client ticket i j hsucceeds hobserved hticket)
  . intro h
    constructor
    . intro key i j hsuccessive
      exact hsuccessive.tickets_iff.mpr (h.tickets key i j hsuccessive)
    . intro key client ticket i j hsucceeds hobserved hticket
      exact (hsucceeds.updates_iff hobserved hticket).mpr
        (h.updates key client ticket i j hsucceeds hobserved hticket)

/-! ### An update that is lost -/

/--
Client 0 adds key 5 and observes its ticket, client 1 sets it, and client 0 goes on with `cas`.
-/
def lostUpdate : Nat → StoreRequest Nat
  | 0 => ⟨0, 5, .add, [1], 0⟩
  | 1 => ⟨0, 5, .gets, [], 0⟩
  | 2 => ⟨1, 5, .set, [2], 0⟩
  | _ => ⟨0, 5, .cas 0, [3], 0⟩

theorem not_noLostUpdates
    : ¬∀ (K : Type) (_ : DecidableEq K) (run : StoreRun K), NoLostUpdates run := by
  intro h
  let run : StoreRun Nat := .drive (fun _ => none) (fun _ _ => nofun)
    (fun i items => (((lostUpdate i).execute items).2, lostUpdate i)) (fun _ _ => rfl) 4
  have hsucceeds : Succeeds run 5 0 0 3 := ⟨⟨by decide, rfl, rfl⟩, rfl, rfl⟩
  have hobserved : LastObserved run 5 0 1 3 := by
    refine ⟨by decide, ⟨rfl, rfl, rfl⟩, ?_⟩
    intro x hlow hhigh hobserves
    have hx : x = 2 := by omega
    subst hx
    nomatch hobserves.1
  have hstores : Stores run 5 2 := ⟨by decide, rfl, rfl⟩
  exact (h Nat inferInstance run).updates 5 0 0 1 3 hsucceeds hobserved rfl 2 (by decide) (by decide)
    hstores

end StoreRun

end YAMemcached
