import YAMemcached.Lru.Steps
import YAMemcached.Util.Auxiliary

/-!
This module contains what holds of the LRU lists in every run of the threads: where no thread is in a call, the lists
are well formed, and no element is taken out of the lists twice without having been put into one. The calls take effect
one after the other.
-/

namespace LFLRUHashTable.Lru

open Linearizability
open Transition

variable {cfg : Config K} {s s' : State} {g g' : Ghost} {t : Nat}

/-! ### The constructor -/

theorem constructThreads_left (numThreads : Nat) {l : Lists}
    (h : Lists.allocate.constructThreads cfg numThreads = .ok l) (e : Nat) : (l.links e).left = LIST_END_MARK := by
  induction numThreads generalizing l e with
  | zero =>
    cases h
    rfl
  | succ numThreads ih =>
    unfold Lists.constructThreads at h
    obtain ⟨l', hl', h⟩ := Except.bind_eq_ok.mp h
    unfold Lists.constructThread at h
    obtain ⟨links, hlinks, h⟩ := Except.bind_eq_ok.mp h
    unfold Lists.load at hlinks
    split at hlinks
    . next hlt =>
      cases hlinks
      split at h
      . cases h
      . rw [Lists.store_of_lt _ _ hlt] at h
        cases h
        dsimp only
        rw [Function.update_apply]
        split
        . exact ih hl' _
        . exact ih hl' e
    . cases hlinks

def Contents.initial (cfg : Config K) : Contents where
  lru _ := []
  free t := if t < cfg.numThreads then cfg.freeElements t else []

def Ghost.initial (cfg : Config K) (l : Lists) : Ghost where
  links := l.links
  lock _ := none
  lru := (Contents.initial cfg).lru
  free := (Contents.initial cfg).free
  place e := if e < cfg.poolSize then .free (e / (cfg.numElements / cfg.numThreads)) else .outside

theorem Initial.inv (hcfg : cfg.Valid) (h : Initial cfg s) : Inv cfg s (Ghost.initial cfg s.toLists) := by
  obtain ⟨hlists, hidle⟩ := h
  obtain ⟨l, hl, hinv⟩ := Lists.construct_inv hcfg
  rw [hlists] at hl
  cases hl
  have hfree (t : Nat) (ht : t < cfg.numThreads) : (Ghost.initial cfg s.toLists).free t = cfg.freeElements t := if_pos ht
  have hfree' (t : Nat) (ht : ¬t < cfg.numThreads) : (Ghost.initial cfg s.toLists).free t = [] := if_neg ht
  have hplace (t e : Nat) : (Ghost.initial cfg s.toLists).place e = .free t ↔ cfg.initialPlace e = .free t := by
    simp only [Ghost.initial, Config.initialPlace]
    split <;> simp
  have hshape : Shape cfg (Ghost.initial cfg s.toLists) := by
    constructor
    . intro _
      trivial
    . intro t
      by_cases ht : t < cfg.numThreads
      . rw [hfree t ht]
        exact (hinv.thread t ht).stack
      . rw [hfree' t ht]
        trivial
    . intro _
      exact List.nodup_nil
    . intro t
      by_cases ht : t < cfg.numThreads
      . rw [hfree t ht]
        exact (hinv.thread t ht).nodup_free
      . rw [hfree' t ht]
        exact List.nodup_nil
    . intro t e
      simp only [Ghost.initial, Contents.initial]
      split <;> simp
    . intro t e
      rw [hplace]
      by_cases ht : t < cfg.numThreads
      . rw [hfree t ht]
        exact hinv.mem_free t ht e
      . rw [hfree' t ht]
        simp only [List.not_mem_nil, false_iff]
        intro he
        exact ht (hinv.free_lt e t he)
    . intro e
      simp only [Ghost.initial]
      split <;> simp <;> omega
    . intro e _ hinner
      exact hinner.1 (constructThreads_left _ hlists e)
  constructor
  . exact hshape
  . intro _
    rfl
  . intro z t half
    rw [(hidle t).1]
    simp [Ghost.initial, Pc.locks]
  . intro z t half hz
    cases hz
  . intro t
    rw [(hidle t).1, (hidle t).2]
    refine ⟨?_, List.nodup_nil⟩
    intro z
    simp only [Ghost.initial, Pc.held]
    split <;> simp
  . intro t ht _
    exact (hinv.thread t ht).head
  . intro t ht _
    exact (hinv.thread t ht).tail
  . intro t ht
    rw [hfree t ht]
    exact (hinv.thread t ht).freeListHead
  . intro t
    rw [(hidle t).1]
    trivial
  . intro t _
    exact hidle t
  . intro t ht
    exact ⟨rfl, hfree' t (Nat.not_lt_of_le ht)⟩

/-! ### States where no thread is in a call -/

def Place.toPlace : Place → LFLRUHashTable.Place
  | .lru t => .lru t
  | .free t => .free t
  | .held _ => .held
  | .outside => .outside

theorem Place.toPlace_lru_iff {p : Place} : p.toPlace = .lru t ↔ p = .lru t := by
  cases p <;> simp [toPlace]

theorem Place.toPlace_free_iff {p : Place} : p.toPlace = .free t ↔ p = .free t := by
  cases p <;> simp [toPlace]

theorem Place.toPlace_held_iff {p : Place} : p.toPlace = .held ↔ ∃ t, p = .held t := by
  cases p <;> simp [toPlace]

theorem Place.toPlace_outside_iff {p : Place} : p.toPlace = .outside ↔ p = .outside := by
  cases p <;> simp [toPlace]

theorem Inv.listInv (hcfg : cfg.Valid) (h : Inv cfg s g) (hidle : ∀ t < cfg.numThreads, s.pc t = .idle)
    : ListInv cfg s.toLists g.lru g.free (fun e => (g.place e).toPlace)
      ∧ ∀ e t, g.place e = .held t ↔ e ∈ s.hand t := by
  have hidle (t : Nat) : s.pc t = .idle := by
    by_cases ht : t < cfg.numThreads
    . exact hidle t ht
    . exact (h.idle t (Nat.le_of_not_lt ht)).1
  have hlinks : s.links = g.links := by
    funext z
    rw [h.links]
    cases hlock : g.lock z with
    | none => rfl
    | some lock =>
      have hmem := (h.lock z lock.1 lock.2).mp hlock
      rw [hidle] at hmem
      cases hmem
  refine ⟨⟨?_, ?_, ?_, ?_, ?_, ?_⟩, ?_⟩
  . intro t ht
    have hpending : (s.pc t).headPending = false ∧ (s.pc t).tailPending = false := by
      rw [hidle]
      exact ⟨rfl, rfl⟩
    refine ⟨?_, h.head t ht hpending.1, h.tail t ht hpending.2, ?_, h.freeListHead t ht, h.shape.nodup_lru t,
      h.shape.nodup_free t⟩
    . rw [hlinks]
      exact h.shape.segment t
    . rw [hlinks]
      exact h.shape.stack t
  . intro t _ e
    rw [h.shape.mem_lru, Place.toPlace_lru_iff]
  . intro t _ e
    rw [h.shape.mem_free, Place.toPlace_free_iff]
  . intro e t he
    by_contra hge
    have hnil := h.shape.eq_nil_of_head hcfg (h.empty t (Nat.le_of_not_lt hge)).1
    rw [Place.toPlace_lru_iff, ← h.shape.mem_lru, hnil] at he
    cases he
  . intro e t he
    by_contra hge
    rw [Place.toPlace_free_iff, ← h.shape.mem_free, (h.empty t (Nat.le_of_not_lt hge)).2] at he
    cases he
  . intro e
    rw [Place.toPlace_outside_iff, h.shape.outside]
  . intro e t
    rw [(h.holds t).place, hidle]
    rfl

/-! ### Taking elements out of the lists -/

namespace Pc

/--
The element that a call has taken out of an LRU list, from there until the call has returned.
-/
def taking : Pc → Option Nat
  | .linkRight x _ _ | .reloadRight x _ | .markTarget x | .setTail x _ | .clearHead x | .markTail x => some x
  | .ret (.unlinkElement _) _ taken | .ret (.unlinkTail _) _ taken => taken
  | _ => none

def unlinked : Pc → Option Nat
  | .ret (.unlinkElement _) _ taken | .ret (.unlinkTail _) _ taken => taken
  | _ => none

/--
The element that a call has put into an LRU list, from there until the call has returned.
-/
def putting : Pc → Option Nat
  | .setHead x | .ret (.linkHead _ x) _ _ => some x
  | _ => none

def linked : Pc → Option Nat
  | .ret (.linkHead _ x) _ _ => some x
  | _ => none

theorem taking_of_unlinked {pc : Pc} (h : pc.unlinked = some x) : pc.taking = some x := by
  cases pc with
  | ret op =>
    cases op with
    | unlinkElement | unlinkTail => exact h
    | _ => cases h
  | _ => cases h

theorem held_of_taking {pc : Pc} (h : pc.taking = some x) : pc.held = some x := by
  cases pc with
  | ret op =>
    cases op with
    | unlinkElement | unlinkTail => exact h
    | _ => cases h
  | linkRight | reloadRight | markTarget | setTail | clearHead | markTail => exact h
  | _ => cases h

end Pc

theorem act_taking (hact : act cfg l t choice pc = some (l', pc', event)) (h : pc'.taking = some x)
    : pc.taking = some x
      ∨ event = .internal ∧ ((pc.status t = .running (.unlinkElement x)
          ∧ pc'.status t = .finished (.unlinkElement x) (.done true))
        ∨ (pc.status t = .running (.unlinkTail t) ∧ pc'.status t = .finished (.unlinkTail t) (.element x))) := by
  cases pc with
  | idle =>
    simp only [act, Option.map_eq_some_iff] at hact
    obtain ⟨pc'', hinvoke, heq⟩ := hact
    cases heq
    simp only [invoke] at hinvoke
    grind [Pc.taking]
  | ret op r taken =>
    cases hact
    cases h
  | _ =>
    simp only [act] at hact
    grind [Pc.taking, Pc.status, retryOrReturn]

theorem Inv.mem_lru_of_putting (hcfg : cfg.Valid) (h : Inv cfg s g) (hx : (s.pc t).putting = some x)
    (hplace : g.place x ≠ .outside) : x ∈ g.lru t := by
  have hhead : (g.lru t).headD LIST_END_MARK = x := by
    have hpcinv := h.pc t
    cases hpc : s.pc t with
    | setHead e =>
      rw [hpc] at hx hpcinv
      cases hx
      exact hpcinv
    | ret op =>
      rw [hpc] at hx hpcinv
      cases op with
      | linkHead =>
        cases hx
        exact hpcinv
      | _ => cases hx
    | _ =>
      rw [hpc] at hx
      cases hx
  have hne := h.shape.lt_mark hcfg hplace
  obtain ⟨xs, hlru, _⟩ := h.shape.head_links hhead (by omega)
  rw [hlru]
  exact List.mem_cons_self

/--
The element was taken out of the lists, and no call has put it back and returned.
-/
def Away (s : State) (g : Ghost) (x : Nat) : Prop :=
  ((∀ t, x ∉ g.lru t) ∧ ∀ t, (s.pc t).taking ≠ some x) ∨ ∃ t, (s.pc t).putting = some x

theorem Away.unlinked_ne (hcfg : cfg.Valid) (hinv : Inv cfg s g) (h : Away s g x) (t : Nat)
    : (s.pc t).unlinked ≠ some x := by
  intro hx
  have htaking := Pc.taking_of_unlinked hx
  have hplace := hinv.place_of_held (Pc.held_of_taking htaking)
  cases h with
  | inl h => exact h.2 t htaking
  | inr h =>
    obtain ⟨u, hu⟩ := h
    have hmem := hinv.mem_lru_of_putting hcfg hu (by rw [hplace]; simp)
    rw [hinv.shape.mem_lru, hplace] at hmem
    cases hmem

theorem Away.of_returned (hact : act cfg s.toLists t choice (s.pc t) = some (l, pc', event))
    (hx : (s.pc t).unlinked = some x) (h' : Inv cfg (s.next t l pc' (handAfter (s.pc t) (s.hand t) event)) g')
    : Away (s.next t l pc' (handAfter (s.pc t) (s.hand t) event)) g' x := by
  have hreturned : pc' = .idle ∧ x ∈ handAfter (s.pc t) (s.hand t) event := by
    cases hpc : s.pc t with
    | ret op r taken =>
      rw [hpc] at hx hact
      cases op with
      | unlinkElement | unlinkTail =>
        cases hx
        cases hact
        exact ⟨rfl, List.mem_cons_self⟩
      | _ => cases hx
    | _ =>
      rw [hpc] at hx
      cases hx
  obtain ⟨rfl, hmem⟩ := hreturned
  have hplace : g'.place x = .held t := by
    rw [(h'.holds t).place, s.next_pc_self, s.next_hand_self]
    exact List.mem_append_right _ hmem
  refine Or.inl ⟨?_, ?_⟩
  . intro u
    rw [h'.shape.mem_lru, hplace]
    simp
  . intro u hu
    have hheld := h'.place_of_held (Pc.held_of_taking hu)
    rw [hplace] at hheld
    cases hheld
    rw [s.next_pc_self] at hu
    cases hu

theorem Contents.Spec.mem_lru {a a' : Contents} (h : a.Spec op r a') (hmem : x ∈ a'.lru u) (hnot : ∀ t, x ∉ a.lru t)
    : ∃ t, op = .linkHead t x := by
  have hset (t : Nat) (xs : List Nat) (hxs : x ∉ xs) : x ∉ (a.setLru t xs).lru u := by
    have := hnot u
    dsimp only [Contents.setLru]
    grind [Function.update_apply]
  cases op with
  | unlinkElement y =>
    cases r with
    | done result =>
      cases result with
      | true =>
        obtain ⟨w, xs, l, r, ys, _, _, hlru, rfl⟩ := h
        have hw := hnot w
        rw [hlru] at hw
        exact absurd hmem (hset _ _ (by grind))
      | false =>
        rw [h.1] at hmem
        exact absurd hmem (hnot u)
    | element => cases h
  | linkHead t e =>
    cases r with
    | done result =>
      cases result with
      | true =>
        obtain ⟨_, rfl⟩ := h
        refine ⟨t, ?_⟩
        by_contra hne
        have hxe : x ≠ e := by
          intro heq
          rw [heq] at hne
          exact hne rfl
        have ht := hnot t
        exact hset _ _ (by grind) hmem
      | false => cases h
    | element => cases h
  | unlinkTail t =>
    cases r with
    | done => cases h
    | element e =>
      obtain ⟨xs, hlru, rfl⟩ := h
      have ht := hnot t
      rw [hlru] at ht
      exact absurd hmem (hset _ _ (by grind))
  | popFree t =>
    cases r with
    | done => cases h
    | element e =>
      obtain ⟨fs, _, rfl⟩ := h
      exact absurd hmem (hnot u)
  | pushFree t e =>
    cases r with
    | done result =>
      cases result with
      | true =>
        obtain ⟨_, rfl⟩ := h
        exact absurd hmem (hnot u)
      | false => cases h
    | element => cases h

theorem putting_of_status {pc : Pc} (h : pc.status t = .finished (.linkHead u x) r) : pc.putting = some x := by
  cases pc with
  | setHead e =>
    cases h
    rfl
  | ret op =>
    cases h
    rfl
  | loadRight | restore | restoreTarget | restoreLeft =>
    simp only [Pc.status] at h
    split at h <;> cases h
  | _ => cases h

theorem act_putting (hact : act cfg l t choice pc = some (l', pc', event)) (h : pc.putting = some x)
    : pc.linked = some x ∨ pc'.putting = some x := by
  cases pc with
  | setHead e =>
    cases hact
    exact Or.inr h
  | ret op =>
    cases op with
    | linkHead => exact Or.inl h
    | _ => cases h
  | _ => cases h

theorem Effect.mem_lru (h : Effect g g' t pc pc' .internal)
    (hstatus : (pc.status t = .running (.unlinkElement x) ∧ pc'.status t = .finished (.unlinkElement x) (.done true))
      ∨ (pc.status t = .running (.unlinkTail t) ∧ pc'.status t = .finished (.unlinkTail t) (.element x)))
    : ∃ u, x ∈ g.lru u := by
  cases h with
  | none _ hsame =>
    have hsame := hsame rfl
    obtain ⟨hrunning, hfinished⟩ | ⟨hrunning, hfinished⟩ := hstatus <;>
      (rw [hrunning, hfinished] at hsame; cases hsame)
  | now op r _ hrunning hfinished hspec =>
    obtain ⟨hrunning', hfinished'⟩ | ⟨hrunning', hfinished'⟩ := hstatus
    . rw [hrunning'] at hrunning
      rw [hfinished'] at hfinished
      cases hrunning
      cases hfinished
      obtain ⟨u, xs, l, r, ys, _, _, hlru, _⟩ := hspec
      refine ⟨u, ?_⟩
      change x ∈ g.contents.lru u
      rw [hlru]
      simp
    . rw [hrunning'] at hrunning
      rw [hfinished'] at hfinished
      cases hrunning
      cases hfinished
      obtain ⟨xs, hlru, _⟩ := hspec
      refine ⟨t, ?_⟩
      change x ∈ g.contents.lru t
      rw [hlru]
      simp

theorem Away.step (h : Away s g x) (hact : act cfg s.toLists t choice (s.pc t) = some (l, pc', event))
    (heffect : Effect g g' t (s.pc t) pc' event) (hlinked : (s.pc t).linked ≠ some x)
    : Away (s.next t l pc' hand) g' x := by
  cases h with
  | inr h =>
    obtain ⟨u, hu⟩ := h
    refine Or.inr ⟨u, ?_⟩
    by_cases heq : u = t
    . rw [heq] at hu ⊢
      rw [s.next_pc_self]
      exact (act_putting hact hu).resolve_left hlinked
    . rw [s.next_pc_of_ne heq]
      exact hu
  | inl h =>
    obtain ⟨hlru, htaking⟩ := h
    by_cases hputting : pc'.putting = some x
    . refine Or.inr ⟨t, ?_⟩
      rw [s.next_pc_self]
      exact hputting
    . refine Or.inl ⟨?_, ?_⟩
      . intro u hmem
        cases heffect with
        | none hcontents =>
          have hsame : g'.lru u = g.lru u := congrArg (fun a : Contents => a.lru u) hcontents
          rw [hsame] at hmem
          exact hlru u hmem
        | now op r _ _ hfinished hspec =>
          obtain ⟨w, rfl⟩ := hspec.mem_lru (u := u) hmem hlru
          exact hputting (putting_of_status hfinished)
      . intro u hu
        by_cases heq : u = t
        . rw [heq, s.next_pc_self] at hu
          obtain hbefore | ⟨rfl, hstatus⟩ := act_taking hact hu
          . exact htaking t hbefore
          . obtain ⟨v, hv⟩ := heffect.mem_lru hstatus
            exact hlru v hv
        . rw [s.next_pc_of_ne heq] at hu
          exact htaking u hu

/-! ### Runs -/

def Changes (cfg : Config K) (s : State) (g : Ghost) (label : Label Nat Op Ret) (s' : State) (g' : Ghost) : Prop :=
  ∃ choice l pc', act cfg s.toLists label.thread choice (s.pc label.thread) = some (l, pc', label.event)
    ∧ s' = s.next label.thread l pc' (handAfter (s.pc label.thread) (s.hand label.thread) label.event)
    ∧ Effect g g' label.thread (s.pc label.thread) pc' label.event

theorem Inv.step (hcfg : cfg.Valid) (h : Inv cfg s g) (hstep : Step cfg s label s')
    : ∃ g', Inv cfg s' g' ∧ Changes cfg s g label s' g' := by
  cases hstep with
  | act t choice l pc' event ht hact hputs =>
    obtain ⟨g', hinv, heffect⟩ := h.keeps_act hcfg ht hact hputs
    exact ⟨g', hinv, choice, l, pc', hact, rfl, heffect⟩

section Run

variable (run : Run (Initial cfg) (Step cfg))

/--
The lists of the threads in every state of a run.
-/
theorem exists_ghosts (hcfg : cfg.Valid)
    : ∃ ghost : Nat → Ghost, ghost 0 = Ghost.initial cfg (run.state 0).toLists
        ∧ (∀ i ≤ run.len, Inv cfg (run.state i) (ghost i))
        ∧ ∀ i < run.len, Changes cfg (run.state i) (ghost i) (run.label i) (run.state (i + 1)) (ghost (i + 1)) :=
  run.exists_auxiliary (run.init_state.inv hcfg) fun _ _ _ _ hinv hstep => hinv.step hcfg hstep

/--
The element that is returned by the step `i`, if it is the last one of a call that took it out of an LRU list.
-/
def Unlinks (i x : Nat) : Prop := ((run.state i).pc (run.label i).thread).unlinked = some x

/--
The step `i` is the last one of a call of `linkHead` with this element.
-/
def Links (i x : Nat) : Prop := ((run.state i).pc (run.label i).thread).linked = some x

theorem links_between (hcfg : cfg.Valid) (hij : i < j) (hj : j < run.len) (hi : Unlinks run i x)
    (hx : Unlinks run j x) : ∃ k, i < k ∧ k < j ∧ Links run k x := by
  obtain ⟨ghost, _, hinv, hchanges⟩ := exists_ghosts run hcfg
  by_contra hnone
  have haway : ∀ k, i < k → k ≤ j → Away (run.state k) (ghost k) x := by
    intro k hik
    induction k, hik using Nat.le_induction with
    | base =>
      intro _
      obtain ⟨choice, l, pc', hact, hstate, _⟩ := hchanges i (by omega)
      have hinv' := hinv (i + 1) (by omega)
      rw [hstate] at hinv' ⊢
      exact Away.of_returned hact hi hinv'
    | succ k hik ih =>
      intro hkj
      obtain ⟨choice, l, pc', hact, hstate, heffect⟩ := hchanges k (by omega)
      rw [hstate]
      apply (ih (by omega)).step hact heffect
      intro hlinked
      exact hnone ⟨k, by omega, by omega, hlinked⟩
  exact (haway j hij (Nat.le_refl _)).unlinked_ne hcfg (hinv j (by omega)) _ hx

/--
In every state of every run in which no thread is in a call, the lists are well formed, and every element of the pool
is in one of them, unless one thread holds it, once. No element is returned by two calls that took it out of the LRU
lists without a call of `linkHead` in between.
-/
theorem lists_safe (hcfg : cfg.Valid)
    : (∀ i ≤ run.len, (∀ t < cfg.numThreads, (run.state i).pc t = .idle) →
        ∃ lru free place, ListInv cfg (run.state i).toLists lru free place
          ∧ (∀ e, place e = .held ↔ ∃ t, e ∈ (run.state i).hand t)
          ∧ (∀ e t u, e ∈ (run.state i).hand t → e ∈ (run.state i).hand u → t = u)
          ∧ ∀ t, ((run.state i).hand t).Nodup)
      ∧ ∀ x i j, i < j → j < run.len → Unlinks run i x → Unlinks run j x → ∃ k, i < k ∧ k < j ∧ Links run k x := by
  obtain ⟨ghost, _, hinv, _⟩ := exists_ghosts run hcfg
  refine ⟨?_, fun x i j hij hj hi hx => links_between run hcfg hij hj hi hx⟩
  intro i hi hidle
  obtain ⟨hlists, hheld⟩ := (hinv i hi).listInv hcfg hidle
  refine ⟨_, _, _, hlists, ?_, ?_, ?_⟩
  . intro e
    simp only [Place.toPlace_held_iff, hheld]
  . intro e t u ht hu
    rw [← hheld] at ht hu
    rw [ht] at hu
    cases hu
    rfl
  . intro t
    exact (List.nodup_append.mp ((hinv i hi).holds t).nodup).2.1

/--
Where moreover no thread holds an element, every element of the pool is in one list.
-/
theorem elements_conserved (hcfg : cfg.Valid)
    : (∀ i ≤ run.len, (∀ t < cfg.numThreads, (run.state i).pc t = .idle ∧ (run.state i).hand t = []) →
        ∃ lru free place, ListInv cfg (run.state i).toLists lru free place
          ∧ ∀ e < cfg.poolSize, ∃ t < cfg.numThreads, place e = .lru t ∨ place e = .free t)
      ∧ ∀ x i j, i < j → j < run.len → Unlinks run i x → Unlinks run j x → ∃ k, i < k ∧ k < j ∧ Links run k x := by
  obtain ⟨ghost, _, hinv, _⟩ := exists_ghosts run hcfg
  refine ⟨?_, fun x i j hij hj hi hx => links_between run hcfg hij hj hi hx⟩
  intro i hi hidle
  have hinv := hinv i hi
  obtain ⟨hlists, hheld⟩ := hinv.listInv hcfg fun t ht => (hidle t ht).1
  refine ⟨_, _, _, hlists, ?_⟩
  intro e he
  cases hplace : (ghost i).place e with
  | lru t => exact ⟨t, hlists.lru_lt e t (by rw [hplace]; rfl), Or.inl rfl⟩
  | free t => exact ⟨t, hlists.free_lt e t (by rw [hplace]; rfl), Or.inr rfl⟩
  | outside => exact absurd ((hinv.shape.outside e).mp hplace) (Nat.not_le_of_lt he)
  | held t =>
    have hmem := (hheld e t).mp hplace
    have hnil : (run.state i).hand t = [] := by
      by_cases ht : t < cfg.numThreads
      . exact (hidle t ht).2
      . exact (hinv.idle t (Nat.le_of_not_lt ht)).2
    rw [hnil] at hmem
    cases hmem

end Run

/-! ### Two threads -/

def schedule (cfg : Config K) (s : State) : List (Nat × Choice) → Option State
  | [] => some s
  | (t, choice) :: steps =>
    match act cfg s.toLists t choice (s.pc t) with
    | none => none
    | some (l, pc, event) =>
      if t < cfg.numThreads ∧ ∀ e ∈ (puts event).toList, e ∈ s.hand t then
        schedule cfg (s.next t l pc (handAfter (s.pc t) (s.hand t) event)) steps
      else none

theorem Reachable.schedule {steps : List (Nat × Choice)} (h : Reachable (Initial cfg) (Step cfg) s)
    (hsteps : schedule cfg s steps = some s') : Reachable (Initial cfg) (Step cfg) s' := by
  induction steps generalizing s with
  | nil =>
    cases hsteps
    exact h
  | cons step steps ih =>
    unfold Lru.schedule at hsteps
    split at hsteps
    . cases hsteps
    . next l pc event hact =>
      split at hsteps
      . next hstep =>
        refine ih (h.step _ _ _ (.act s _ _ l pc event hstep.1 hact ?_)) hsteps
        intro e he
        exact hstep.2 e (Option.mem_toList.mpr he)
      . cases hsteps

def twoThreads : Config Nat where
  numElements := 4
  hashSize := 5
  numThreads := 2
  hasherFunc := id

theorem twoThreads_valid : twoThreads.Valid := by
  constructor <;> decide

def twoThreadsStart : State where
  toLists := (Lists.allocate.constructThreads twoThreads 2).toOption.getD Lists.allocate
  pc _ := .idle
  hand _ := []

theorem twoThreadsStart_initial : Initial twoThreads twoThreadsStart := ⟨rfl, fun _ => ⟨rfl, rfl⟩⟩

def turns (t : Nat) (op : Op) (steps : Nat) : List (Nat × Choice) := List.replicate steps (t, ⟨op, false⟩)

/--
The first thread takes its free elements 0 and 1. While it holds 1 it puts 0 into its LRU list and tries to take it
out of there again, which the first element of a list does not allow. The second thread takes its element 2.
-/
theorem exists_run_twoThreads
    : ∃ run : Run (Initial twoThreads) (Step twoThreads),
        (∀ t < twoThreads.numThreads, (run.state run.len).pc t = .idle)
          ∧ (run.state run.len).hand 0 = [1] ∧ (run.state run.len).hand 1 = [2]
          ∧ ((run.state run.len).lruLists 0).head = 0 := by
  obtain ⟨s, hsteps, hs⟩ : ∃ s, schedule twoThreads twoThreadsStart
      (turns 0 (.popFree 0) 4 ++ turns 0 (.popFree 0) 2 ++ turns 1 (.popFree 1) 1 ++ turns 0 (.popFree 0) 2
        ++ turns 0 (.linkHead 0 0) 3 ++ turns 1 (.popFree 1) 3 ++ turns 0 (.linkHead 0 0) 2
        ++ turns 0 (.unlinkElement 0) 3) = some s
      ∧ (∀ t < twoThreads.numThreads, s.pc t = .idle) ∧ s.hand 0 = [1] ∧ s.hand 1 = [2] ∧ (s.lruLists 0).head = 0 :=
    ⟨_, rfl, by decide⟩
  obtain ⟨run, rfl⟩ := Run.exists_of_reachable (Reachable.schedule (.init _ twoThreadsStart_initial) hsteps) ⟨0, .internal⟩
  exact ⟨run, hs⟩

theorem lists_safe_twoThreads
    : ∃ s, Reachable (Initial twoThreads) (Step twoThreads) s
        ∧ ∃ lru free place, ListInv twoThreads s.toLists lru free place ∧ (lru 0).head? = some 0
          ∧ place 1 = .held ∧ place 2 = .held := by
  obtain ⟨run, hidle, hfirst, hsecond, hhead⟩ := exists_run_twoThreads
  obtain ⟨lru, free, place, hlists, hheld, _⟩ := (lists_safe run twoThreads_valid).1 run.len (Nat.le_refl _) hidle
  refine ⟨_, run.reachable _ (Nat.le_refl _), lru, free, place, hlists, ?_, (hheld 1).mpr ⟨0, ?_⟩,
    (hheld 2).mpr ⟨1, ?_⟩⟩
  . have hhead' := (hlists.thread 0 (by decide)).head
    rw [hhead] at hhead'
    cases hlru : lru 0 with
    | nil =>
      rw [hlru] at hhead'
      cases hhead'
    | cons e es =>
      rw [hlru] at hhead'
      exact congrArg some hhead'.symm
  . rw [hfirst]
    exact List.mem_singleton_self 1
  . rw [hsecond]
    exact List.mem_singleton_self 2

theorem elements_conserved_twoThreads
    : ∃ s, Reachable (Initial twoThreads) (Step twoThreads) s ∧ (s.lruLists 0).freeListHead = 0
        ∧ (s.lruLists 1).tail = 2
        ∧ ∃ lru free place, ListInv twoThreads s.toLists lru free place
          ∧ ∀ e < 4, ∃ t < 2, place e = .lru t ∨ place e = .free t := by
  obtain ⟨s, hsteps, hend, hfree, htail⟩ : ∃ s, schedule twoThreads twoThreadsStart
      (turns 0 (.popFree 0) 4 ++ turns 1 (.popFree 1) 2 ++ turns 0 (.linkHead 0 0) 5 ++ turns 0 (.unlinkTail 0) 3
        ++ turns 1 (.popFree 1) 2 ++ turns 1 (.linkHead 1 2) 3 ++ turns 0 (.unlinkTail 0) 3
        ++ turns 0 (.pushFree 0 0) 2 ++ turns 1 (.linkHead 1 2) 2 ++ turns 0 (.pushFree 0 0) 2) = some s
      ∧ (∀ t < twoThreads.numThreads, s.pc t = .idle ∧ s.hand t = []) ∧ (s.lruLists 0).freeListHead = 0
      ∧ (s.lruLists 1).tail = 2 := ⟨_, rfl, by decide⟩
  obtain ⟨run, rfl⟩ := Run.exists_of_reachable (Reachable.schedule (.init _ twoThreadsStart_initial) hsteps) ⟨0, .internal⟩
  exact ⟨_, run.reachable _ (Nat.le_refl _), hfree, htail,
    (elements_conserved run twoThreads_valid).1 run.len (Nat.le_refl _) hend⟩

/-! ### Linearizability -/

section Run

variable (run : Run (Initial cfg) (Step cfg))

def State.status (s : State) (t : Nat) : Status Op Ret := (s.pc t).status t

theorem Changes.status_others (h : Changes cfg s g label s' g') (hne : t ≠ label.thread) : s'.status t = s.status t := by
  obtain ⟨choice, l, pc', _, rfl, _⟩ := h
  dsimp only [State.status]
  rw [s.next_pc_of_ne hne]

theorem Changes.status_self (h : Changes cfg s g label s' g')
    : (∀ op, label.event = .invoke op → s.status label.thread = .idle ∧ s'.status label.thread = .running op)
      ∧ ∀ r, label.event = .respond r → ∃ op, s.status label.thread = .finished op r
          ∧ s'.status label.thread = .idle := by
  obtain ⟨choice, l, pc', hact, rfl, _⟩ := h
  dsimp only [State.status]
  rw [s.next_pc_self]
  exact act_status hact

theorem Changes.effect (h : Changes cfg s g label s' g')
    : (g'.contents = g.contents ∧ (label.event = .internal → s'.status label.thread = s.status label.thread))
      ∨ ∃ op r, label.event = .internal ∧ s.status label.thread = .running op
          ∧ s'.status label.thread = .finished op r ∧ g.contents.Spec op r g'.contents := by
  obtain ⟨choice, l, pc', _, rfl, heffect⟩ := h
  dsimp only [State.status]
  rw [s.next_pc_self]
  cases heffect with
  | none hcontents hstatus => exact Or.inl ⟨hcontents, hstatus⟩
  | now op r hevent hrunning hfinished hspec => exact Or.inr ⟨op, r, hevent, hrunning, hfinished, hspec⟩

/--
The calls take effect one after the other, each one between its start and its return. Where no thread is in a call, the
elements are linked as these effects say.
-/
theorem lists_linearizable (hcfg : cfg.Valid)
    : ∃ contents order, Order Contents.Spec (Contents.initial cfg) contents run.label run.len order
        ∧ ((∀ t < cfg.numThreads, (run.state run.len).pc t = .idle) →
          ∃ place, ListInv cfg (run.state run.len).toLists contents.lru contents.free place) := by
  obtain ⟨ghost, hzero, hinv, hchanges⟩ := exists_ghosts run hcfg
  have htracks : Tracks run.label (fun i => (run.state i).status) run.len := by
    constructor
    . intro t
      dsimp only [State.status]
      rw [(run.init_state.2 t).1]
      rfl
    . intro n hn t ht
      exact (hchanges n hn).status_others ht
    . intro n hn t op hlabel
      have hself := (hchanges n hn).status_self.1 op
      rw [hlabel] at hself
      exact hself rfl
    . intro n hn t r hlabel
      have hself := (hchanges n hn).status_self.2 r
      rw [hlabel] at hself
      exact hself rfl
  have heffect (n : Nat) (hn : n < run.len) : Linearizability.Effect Contents.Spec (fun i => (ghost i).contents) run.label
      (fun i => (run.state i).status) n := by
    obtain ⟨hcontents, hstatus⟩ | ⟨op, r, hevent, hrunning, hfinished, hspec⟩ := (hchanges n hn).effect
    . exact .none hcontents hstatus
    . exact .now op r hevent hrunning hfinished hspec
  obtain ⟨order, horder⟩ := exists_order htracks heffect
  have hstart : (ghost 0).contents = Contents.initial cfg := by
    rw [hzero]
    rfl
  rw [hstart] at horder
  refine ⟨_, order, horder, ?_⟩
  intro hidle
  exact ⟨_, ((hinv run.len (Nat.le_refl _)).listInv hcfg hidle).1⟩

end Run

theorem lists_linearizable_twoThreads
    : ∃ run : Run (Initial twoThreads) (Step twoThreads), (run.state run.len).hand 0 = [1]
        ∧ ((run.state run.len).lruLists 0).head = 0
        ∧ ∃ contents order, Order Contents.Spec (Contents.initial twoThreads) contents run.label run.len order
          ∧ ∃ place, ListInv twoThreads (run.state run.len).toLists contents.lru contents.free place := by
  obtain ⟨run, hidle, hhand, _, hhead⟩ := exists_run_twoThreads
  obtain ⟨contents, order, horder, hlists⟩ := lists_linearizable run twoThreads_valid
  exact ⟨run, hhand, hhead, contents, order, horder, hlists hidle⟩

end LFLRUHashTable.Lru
