import AetherNode.Lib.OrderedDict
import AetherNode.Lib.Run
import AetherNode.Lib.Semaphore
import Mathlib.Data.List.Perm.Subperm
/-!
# The threads of a listener

`RelayUnixHTTPServer` and `GossipUnixTLSServer` run one thread per connection
and cap them with a semaphore. The accept loop takes a permit before it starts
a thread, and gives it back where the start fails; the thread gives it back at
its very end. Their calls interleave in any order, and any of them may raise.

The cap is kept and never shrinks: no permit is lost or given back twice, and
a connection is turned away exactly where `cap` threads run (`permits_kept`);
no connection outlives its thread (`sockets_kept`), also where the handshake
has taken its descriptor over.
-/
namespace AetherNode.Listener

open Lib

/-- An accepted connection, numbered in the order of its acceptance. -/
abbrev Conn := Nat

/-- `RelayUnixHTTPServer` serves the connection as it is, `GossipUnixTLSServer` wraps it. -/
inductive Kind
  | plain
  | tls
  deriving DecidableEq, Repr

/-- The object that closes the descriptor of a connection when it is closed. `wrap_socket` detaches it from `request`. -/
inductive Owner
  | request
  | tlsRequest
  | nobody
  deriving DecidableEq, Repr

/-- Where the thread of a connection is in `process_request_thread`. -/
inductive Place
  | finishRequest
  /-- The handshake is over: `getpeercert` and `is_blacklisted`. -/
  | peerCheck
  | handler
  | closeTls
  | shutdownRequest
  | release
  deriving DecidableEq, Repr

structure Worker where
  place : Place
  owner : Owner
  deriving DecidableEq, Repr

/-- The accept loop: it waits, has accepted a connection, or has a permit for it. -/
inductive Loop
  | waiting
  | accepted (c : Conn)
  | admitted (c : Conn)
  deriving DecidableEq, Repr

def Loop.conns : Loop → List Conn
  | .waiting => []
  | .accepted c => [c]
  | .admitted c => [c]

/-- The permits the loop holds. -/
def Loop.permits : Loop → Nat
  | .admitted _ => 1
  | _ => 0

structure Server where
  semaphore : BoundedSemaphore
  loop : Loop
  workers : OrderedDict Conn Worker
  /-- The open descriptors. -/
  sockets : List Conn
  next : Conn

/-- A listener with `max_concurrent_connections`. -/
def listen (cap : Nat) : Server := ⟨.full cap, .waiting, .empty, [], 0⟩

/-- How a call of a thread ends. What `wrap_socket` raises may be an `ssl.SSLError` or `OSError`, and may come before the
descriptor is detached, or after it, when the new socket closes it. -/
inductive Outcome
  | returns
  /-- `finish_request` returns without a handler: no certificate, or a blacklisted one. -/
  | refuses
  | raises (caught : Bool) (detached : Bool)
  deriving DecidableEq, Repr

inductive Event
  /-- `get_request` -/
  | accept
  /-- `acquire(blocking=False)` of `process_request` -/
  | acquire
  /-- `super().process_request`: the thread starts, or `Thread.start` raises. -/
  | start
  | startRaises
  /-- The next call of a thread. -/
  | work (c : Conn) (o : Outcome)
  deriving DecidableEq, Repr

inductive Shown
  | quiet
  | refused (c : Conn)
  | started (c : Conn)
  | handled (c : Conn)
  /-- `release` has raised. -/
  | valueError
  deriving DecidableEq, Repr

/-- `request.close()` and `tls_request.close()`: an object that does not own the descriptor leaves it as it is. -/
def Server.close (l : Server) (c : Conn) (object owner : Owner) : Server :=
  if owner = object then { l with sockets := l.sockets.erase c } else l

def Owner.closed (owner object : Owner) : Owner := if owner = object then .nobody else owner

def Server.goto (l : Server) (c : Conn) (w : Worker) : Server :=
  { l with workers := l.workers.modify c fun _ => w }

/-- The next call of the thread of `c`. -/
def work (kind : Kind) (l : Server) (c : Conn) (w : Worker) (o : Outcome) : Option (Server × Shown) :=
  match w.place with
  | .finishRequest =>
    match kind with
    | .plain => some (l.goto c { w with place := .handler }, .quiet)
    | .tls =>
      match o with
      | .returns => some (l.goto c ⟨.peerCheck, .tlsRequest⟩, .quiet)
      | .refuses => none
      | .raises caught detached =>
        -- the new socket closes what it has taken over; `finish_request` closes `request` where it catches
        if detached then some ((l.close c .request w.owner).goto c ⟨.shutdownRequest, .nobody⟩, .quiet)
        else if caught then some ((l.close c .request w.owner).goto c ⟨.shutdownRequest, w.owner.closed .request⟩, .quiet)
        else some (l.goto c { w with place := .shutdownRequest }, .quiet)
  | .peerCheck =>
    match o with
    | .returns => some (l.goto c { w with place := .handler }, .quiet)
    | _ => some (l.goto c { w with place := .closeTls }, .quiet)
  | .handler =>
    match kind with
    | .plain => some (l.goto c { w with place := .shutdownRequest }, .handled c)
    | .tls => some (l.goto c { w with place := .closeTls }, .handled c)
  | .closeTls => some ((l.close c .tlsRequest w.owner).goto c ⟨.shutdownRequest, w.owner.closed .tlsRequest⟩, .quiet)
  | .shutdownRequest => some ((l.close c .request w.owner).goto c ⟨.release, w.owner.closed .request⟩, .quiet)
  | .release =>
    match l.semaphore.release with
    | some s => some ({ l with semaphore := s, workers := l.workers.erase c }, .quiet)
    | none => some ({ l with workers := l.workers.erase c }, .valueError)

def step (kind : Kind) : System Server Event Shown := fun l e =>
  match e with
  | .accept =>
    match l.loop with
    | .waiting => some ({ l with loop := .accepted l.next, sockets := l.next :: l.sockets, next := l.next + 1 }, .quiet)
    | _ => none
  | .acquire =>
    match l.loop with
    | .accepted c =>
      match l.semaphore.acquire with
      | none => some ({ l.close c .request .request with loop := .waiting }, .refused c)
      | some s => some ({ l with semaphore := s, loop := .admitted c }, .quiet)
    | _ => none
  | .start =>
    match l.loop with
    | .admitted c =>
      some ({ l with loop := .waiting, workers := l.workers.putLast c ⟨.finishRequest, .request⟩ }, .started c)
    | _ => none
  | .startRaises =>
    match l.loop with
    | .admitted c =>
      -- re-raised to `_handle_request_noblock`, which calls `shutdown_request`
      let l' := { l.close c .request .request with loop := .waiting }
      match l.semaphore.release with
      | some s => some ({ l' with semaphore := s }, .quiet)
      | none => some (l', .valueError)
    | _ => none
  | .work c o => (l.workers.get? c).bind fun w => work kind l c w o

/-! ## What one step can do -/

/-- Who owns the descriptor at each place of a thread. -/
def OwnedAt (kind : Kind) (w : Worker) : Prop :=
  match w.place with
  | .finishRequest => w.owner = .request
  | .peerCheck => kind = .tls ∧ w.owner = .tlsRequest
  | .handler => w.owner = match kind with | .plain => .request | .tls => .tlsRequest
  | .closeTls => w.owner = .tlsRequest
  | .shutdownRequest => w.owner ≠ .tlsRequest
  | .release => w.owner = .nobody

section
variable {kind : Kind} {cap : Nat} {l l' : Server} {c : Conn} {w : Worker} {e : Event} {o : Shown} {out : Outcome}

/-- The call of a thread that is not its last moves the thread on, and closes the descriptor where nobody is left to own
it. -/
structure Advances (kind : Kind) (l : Server) (c : Conn) (w : Worker) (l' : Server) : Prop where
  running : w.place ≠ .release
  next : ∃ w', OwnedAt kind w' ∧ l'.workers = l.workers.modify c (fun _ => w') ∧
    ((w'.owner = .nobody ∧ l'.sockets = l.sockets.erase c) ∨
      ((w'.owner = .nobody ↔ w.owner = .nobody) ∧ l'.sockets = l.sockets))
  semaphore : l'.semaphore = l.semaphore
  loop : l'.loop = l.loop
  fresh : l'.next = l.next

theorem advances_goto {w' : Worker} (hrun : w.place ≠ .release) (how : OwnedAt kind w')
    (howner : w'.owner = .nobody ↔ w.owner = .nobody) : Advances kind l c w (l.goto c w') :=
  ⟨hrun, ⟨w', how, rfl, .inr ⟨howner, rfl⟩⟩, rfl, rfl, rfl⟩

/-- Closing the object that owns the descriptor. -/
theorem advances_close {place : Place} {object : Owner} (hrun : w.place ≠ .release) (hobject : w.owner = object)
    (how : OwnedAt kind ⟨place, .nobody⟩) :
    Advances kind l c w ((l.close c object w.owner).goto c ⟨place, .nobody⟩) := by
  rw [Server.close, if_pos hobject]
  exact ⟨hrun, ⟨_, how, rfl, .inl ⟨rfl, rfl⟩⟩, rfl, rfl, rfl⟩

theorem work_cases (how : OwnedAt kind w) (h : work kind l c w out = some (l', o)) :
    (Advances kind l c w l' ∧ (o = .quiet ∨ o = .handled c)) ∨ (w.owner = .nobody ∧ ∀ s, l.semaphore.release = some s →
      l' = { l with semaphore := s, workers := l.workers.erase c } ∧ o = .quiet) := by
  obtain ⟨place, owner⟩ := w
  cases place with
  | finishRequest =>
    obtain rfl : owner = .request := how
    left
    cases kind with
    | plain =>
      cases h
      exact ⟨advances_goto (by simp) rfl .rfl, .inl rfl⟩
    | tls =>
      cases out with
      | returns =>
        cases h
        exact ⟨advances_goto (by simp) ⟨rfl, rfl⟩ (by simp), .inl rfl⟩
      | refuses => cases h
      | raises caught detached =>
        simp only [work] at h
        split at h
        · cases h
          exact ⟨advances_close (by simp) rfl (by simp [OwnedAt]), .inl rfl⟩
        · split at h <;> cases h
          · exact ⟨advances_close (by simp) rfl (by simp [OwnedAt]), .inl rfl⟩
          · exact ⟨advances_goto (by simp) (by simp [OwnedAt]) .rfl, .inl rfl⟩
  | peerCheck =>
    obtain ⟨rfl, rfl⟩ : kind = .tls ∧ owner = .tlsRequest := how
    left
    cases out <;> cases h <;> exact ⟨advances_goto (by simp) rfl .rfl, .inl rfl⟩
  | handler =>
    left
    cases kind <;> obtain rfl := (show owner = _ from how) <;> cases h
    · exact ⟨advances_goto (by simp) (by simp [OwnedAt]) .rfl, .inr rfl⟩
    · exact ⟨advances_goto (by simp) rfl .rfl, .inr rfl⟩
  | closeTls =>
    obtain rfl : owner = .tlsRequest := how
    cases h
    exact .inl ⟨advances_close (by simp) rfl (by simp [OwnedAt]), .inl rfl⟩
  | shutdownRequest =>
    left
    cases owner with
    | request =>
      cases h
      exact ⟨advances_close (by simp) rfl rfl, .inl rfl⟩
    | tlsRequest => exact absurd rfl how
    | nobody =>
      cases h
      exact ⟨advances_goto (by simp) rfl .rfl, .inl rfl⟩
  | release =>
    refine .inr ⟨how, fun s hs => ?_⟩
    simp only [work, hs] at h
    cases h
    exact ⟨rfl, rfl⟩

/-! ## The invariant -/

/-- Every permit that is out is with the loop or with a thread, and every open descriptor too. -/
structure Inv (kind : Kind) (cap : Nat) (l : Server) : Prop where
  initial : l.semaphore.initial = cap
  taken : l.semaphore.Taken (l.workers.length + l.loop.permits)
  owns : ∀ {c w}, l.workers.get? c = some w → OwnedAt kind w
  /-- The loop has no connection of a thread. -/
  apart : ∀ {c}, c ∈ l.loop.conns → l.workers.get? c = none
  fresh : ∀ {c}, c ∈ l.loop.conns ∨ (∃ w, l.workers.get? c = some w) → c < l.next
  nodup : l.sockets.Nodup
  sockets : ∀ {c}, c ∈ l.sockets ↔ c ∈ l.loop.conns ∨ ∃ w, l.workers.get? c = some w ∧ w.owner ≠ .nobody

theorem inv_listen (kind : Kind) (cap : Nat) : Inv kind cap (listen cap) where
  initial := rfl
  taken := BoundedSemaphore.taken_full cap
  owns h := by cases h
  apart h := by cases h
  fresh h := by simp [listen, Loop.conns, OrderedDict.get?, OrderedDict.empty] at h
  nodup := .nil
  sockets := by simp [listen, Loop.conns, OrderedDict.get?, OrderedDict.empty]

theorem Advances.inv (hi : Inv kind cap l) (hw : l.workers.get? c = some w) (ha : Advances kind l c w l') : Inv kind cap l' := by
  obtain ⟨w', how, hworkers, hsockets⟩ := ha.next
  have hget : ∀ j, l'.workers.get? j = if j = c then some w' else l.workers.get? j := by
    intro j
    rw [hworkers, OrderedDict.get?_modify, hw]
    rfl
  have hloop : c ∉ l.loop.conns := fun h => by simp [hi.apart h] at hw
  refine ⟨ha.semaphore ▸ hi.initial, ?_, ?_, ?_, ?_, ?_, ?_⟩
  · rw [hworkers, OrderedDict.length_modify, ha.semaphore, ha.loop]
    exact hi.taken
  · intro j v hv
    rw [hget] at hv
    split at hv
    · cases hv
      exact how
    · exact hi.owns hv
  · intro j hj
    rw [ha.loop] at hj
    rw [hget, if_neg (by rintro rfl; exact hloop hj), hi.apart hj]
  · intro j hj
    rw [ha.fresh]
    apply hi.fresh
    rw [ha.loop] at hj
    rcases hj with hj | ⟨v, hv⟩
    · exact .inl hj
    · rw [hget] at hv
      split at hv <;> rename_i hjc
      · exact .inr ⟨w, hjc ▸ hw⟩
      · exact .inr ⟨v, hv⟩
  · rcases hsockets with ⟨-, h⟩ | ⟨-, h⟩ <;> rw [h]
    · exact hi.nodup.erase c
    · exact hi.nodup
  · intro j
    rw [ha.loop, hget]
    by_cases hj : j = c
    · subst hj
      have hopen : j ∈ l.sockets ↔ w.owner ≠ .nobody := by simp [hi.sockets, hloop, hw]
      rcases hsockets with ⟨hnobody, h⟩ | ⟨hiff, h⟩
      · simp [h, hi.nodup.mem_erase_iff, hloop, hnobody]
      · simp [h, hopen, hloop, hiff]
    · rw [if_neg hj, ← hi.sockets]
      rcases hsockets with ⟨-, h⟩ | ⟨-, h⟩ <;> rw [h]
      rw [hi.nodup.mem_erase_iff]
      exact and_iff_right hj

/-- The loop closes its connection and waits for the next one, with the semaphore as it is then. -/
theorem drop_inv {s : BoundedSemaphore} (hi : Inv kind cap l) (hc : l.loop.conns = [c]) (hinit : s.initial = cap)
    (htaken : s.Taken l.workers.length) :
    Inv kind cap { l.close c .request .request with semaphore := s, loop := .waiting } where
  initial := hinit
  taken := htaken
  owns := hi.owns
  apart h := by cases h
  fresh h := by
    rcases h with h | h
    · cases h
    · exact hi.fresh (.inr h)
  nodup := hi.nodup.erase c
  sockets := by
    intro j
    have hnone : l.workers.get? c = none := hi.apart (by simp [hc])
    change j ∈ l.sockets.erase c ↔ j ∈ [] ∨ ∃ w, l.workers.get? j = some w ∧ w.owner ≠ .nobody
    rw [hi.nodup.mem_erase_iff, hi.sockets, hc]
    by_cases hj : j = c
    · simp [hj, hnone]
    · simp [hj]

theorem accept_inv (hi : Inv kind cap l) (hl : l.loop = .waiting) :
    Inv kind cap { l with loop := .accepted l.next, sockets := l.next :: l.sockets, next := l.next + 1 } where
  initial := hi.initial
  taken := by simpa [hl, Loop.permits] using hi.taken
  owns := hi.owns
  apart h := by
    obtain rfl := List.mem_singleton.1 h
    exact Option.eq_none_iff_forall_not_mem.2 fun w hw => (hi.fresh (.inr ⟨w, hw⟩)).false
  fresh h := by
    rcases h with h | h
    · obtain rfl := List.mem_singleton.1 h
      exact Nat.lt_succ_self _
    · exact (hi.fresh (.inr h)).trans (Nat.lt_succ_self _)
  nodup := by
    refine List.nodup_cons.2 ⟨fun h => ?_, hi.nodup⟩
    rcases hi.sockets.1 h with h | ⟨w, hw, -⟩
    · exact (hi.fresh (.inl h)).false
    · exact (hi.fresh (.inr ⟨w, hw⟩)).false
  sockets := by
    intro j
    simp [Loop.conns, hi.sockets, hl]

theorem admit_inv {s : BoundedSemaphore} (hi : Inv kind cap l) (hl : l.loop = .accepted c)
    (hs : l.semaphore.acquire = some s) : Inv kind cap { l with semaphore := s, loop := .admitted c } where
  initial := (BoundedSemaphore.acquire_initial hs).trans hi.initial
  taken := by
    have htaken := hi.taken
    rw [hl] at htaken
    exact htaken.acquire hs
  owns := hi.owns
  apart h := hi.apart (by rw [hl]; exact h)
  fresh h := hi.fresh (by rw [hl]; exact h)
  nodup := hi.nodup
  sockets := by
    intro j
    rw [hi.sockets, hl]
    rfl

theorem start_inv (hi : Inv kind cap l) (hl : l.loop = .admitted c) :
    Inv kind cap { l with loop := .waiting, workers := l.workers.putLast c ⟨.finishRequest, .request⟩ } := by
  have hnone : l.workers.get? c = none := hi.apart (by simp [hl, Loop.conns])
  have hget := l.workers.get?_putLast c ⟨.finishRequest, .request⟩
  refine ⟨hi.initial, ?_, ?_, ?_, ?_, hi.nodup, ?_⟩
  · change l.semaphore.Taken ((l.workers.putLast c _).length + 0)
    rw [OrderedDict.length_putLast_new hnone]
    have htaken := hi.taken
    rw [hl] at htaken
    exact htaken
  · intro j w hw
    rw [hget] at hw
    split at hw
    · cases hw
      rfl
    · exact hi.owns hw
  · rintro j hj
    cases hj
  · intro j hj
    apply hi.fresh
    rcases hj with hj | ⟨w, hw⟩
    · cases hj
    · rw [hget] at hw
      split at hw <;> rename_i hjc
      · exact .inl (by simp [hl, Loop.conns, hjc])
      · exact .inr ⟨w, hw⟩
  · intro j
    dsimp only
    rw [hi.sockets, hl, hget]
    by_cases hj : j = c <;> simp [hj, Loop.conns]

theorem end_inv {s : BoundedSemaphore} (hi : Inv kind cap l) (hw : l.workers.get? c = some w) (hnobody : w.owner = .nobody)
    (hinit : s.initial = cap) (htaken : s.Taken ((l.workers.erase c).length + l.loop.permits)) :
    Inv kind cap { l with semaphore := s, workers := l.workers.erase c } := by
  have hget := l.workers.get?_erase c
  refine ⟨hinit, htaken, ?_, ?_, ?_, hi.nodup, ?_⟩
  · intro j w' hw'
    rw [hget] at hw'
    split at hw'
    · cases hw'
    · exact hi.owns hw'
  · intro j hj
    rw [hget, hi.apart hj, ite_self]
  · intro j hj
    rcases hj with hj | ⟨w', hw'⟩
    · exact hi.fresh (.inl hj)
    · rw [hget] at hw'
      split at hw'
      · cases hw'
      · exact hi.fresh (.inr ⟨w', hw'⟩)
  · intro j
    dsimp only
    rw [hi.sockets, hget]
    by_cases hj : j = c <;> simp [hj, hw, hnobody]

/-- What a step may show: a connection is turned away where the cap of threads is reached, and no release raises. -/
def Fair (cap : Nat) (l : Server) : Shown → Prop
  | .refused c => l.loop = .accepted c ∧ l.workers.length = cap
  | .valueError => False
  | _ => True

theorem step_inv (hi : Inv kind cap l) (hs : step kind l e = some (l', o)) : Inv kind cap l' ∧ Fair cap l o := by
  cases e with
  | accept =>
    simp only [step] at hs
    split at hs <;> rename_i hl <;> cases hs
    exact ⟨accept_inv hi hl, trivial⟩
  | acquire =>
    simp only [step] at hs
    split at hs
    · rename_i c hl
      have htaken := hi.taken
      rw [hl] at htaken
      split at hs <;> rename_i hs' <;> cases hs
      · exact ⟨drop_inv hi (by rw [hl]; rfl) hi.initial htaken, hl, (htaken.acquire_eq_none.1 hs').trans hi.initial⟩
      · exact ⟨admit_inv hi hl hs', trivial⟩
    · cases hs
  | start =>
    simp only [step] at hs
    split at hs <;> rename_i hl <;> cases hs
    exact ⟨start_inv hi hl, trivial⟩
  | startRaises =>
    simp only [step] at hs
    split at hs
    · rename_i c hl
      have htaken := hi.taken
      rw [hl] at htaken
      obtain ⟨s, hs', htaken⟩ := htaken.release
      rw [hs'] at hs
      cases hs
      exact ⟨drop_inv hi (by rw [hl]; rfl) ((BoundedSemaphore.release_initial hs').trans hi.initial) htaken, trivial⟩
    · cases hs
  | work c out =>
    obtain ⟨w, hw, hs⟩ := Option.bind_eq_some_iff.1 hs
    rcases work_cases (hi.owns hw) hs with ⟨ha, ho⟩ | ⟨hnobody, hend⟩
    · refine ⟨ha.inv hi hw, ?_⟩
      rcases ho with rfl | rfl <;> trivial
    · have htaken := hi.taken
      rw [← OrderedDict.length_erase hw, Nat.add_right_comm] at htaken
      obtain ⟨s, hs', htaken⟩ := htaken.release
      obtain ⟨rfl, rfl⟩ := hend s hs'
      exact ⟨end_inv hi hw hnobody ((BoundedSemaphore.release_initial hs').trans hi.initial) htaken, trivial⟩

theorem run_inv {h : List (Event × Shown)} (hr : Run (step kind) Any (listen cap) h l) : Inv kind cap l :=
  hr.inv (Inv kind cap) (inv_listen kind cap) fun _ _ _ _ hi _ hs => (step_inv hi hs).1

/-! ## Permits and descriptors -/

/-- However the threads and the accept loop interleave, and whatever raises, the
permits that are not free are those of the running threads and the one of the loop; no release is one too many; and a
connection is turned away exactly where `cap` threads run. -/
theorem permits_kept {h : List (Event × Shown)} (hr : Run (step kind) Any (listen cap) h l) :
    l.semaphore.value + (l.workers.length + l.loop.permits) = cap ∧ (∀ x ∈ h, x.2 ≠ .valueError) ∧
      ∀ c l' o, l.loop = .accepted c → step kind l .acquire = some (l', o) →
        (o = .refused c ↔ l.workers.length = cap) := by
  have hi : Inv kind cap l := run_inv hr
  refine ⟨hi.taken.trans hi.initial, ?_, ?_⟩
  · have hkept : Inv kind cap l ∧ ∀ x ∈ h, x.2 ≠ .valueError := by
      refine hr.inv_hist (fun h l => Inv kind cap l ∧ ∀ x ∈ h, x.2 ≠ .valueError) ⟨inv_listen kind cap, by simp⟩ ?_
      rintro h l e l' o ⟨hi, hnone⟩ - hs
      obtain ⟨hi', hfair⟩ := step_inv hi hs
      refine ⟨hi', fun x hx => ?_⟩
      rcases List.mem_append.1 hx with hx | hx
      · exact hnone x hx
      · rw [List.mem_singleton.1 hx]
        rintro rfl
        exact hfair
    exact hkept.2
  · intro c l' o hl hs
    constructor
    · rintro rfl
      exact (step_inv hi hs).2.2
    · intro hfull
      have htaken := hi.taken
      rw [hl] at htaken
      have hnone := htaken.acquire_eq_none.2 (hfull.trans hi.initial.symm)
      simp only [step, hl, hnone] at hs
      cases hs
      rfl

theorem permits_kept_sample : ∃ h l, Run (step .tls) Any (listen 1) h l ∧ l.loop = .accepted 1 ∧
    ∀ l' o, step .tls l .acquire = some (l', o) → o = .refused 1 := by
  obtain ⟨h, l, hr, hl⟩ := exists_any_run (step .tls) (fun l _ => l.loop = .accepted 1 ∧ l.workers.length = 1) (listen 1)
    [.accept, .acquire, .start, .accept] (by decide)
  obtain ⟨hloop, hfull⟩ := of_decide_eq_true hl
  exact ⟨h, l, hr, hloop, fun l' o hs => ((permits_kept hr).2.2 1 l' o hloop hs).2 hfull⟩

/-- The open descriptors are one per connection, each with the accept loop or with
a thread that still runs, so at most one more than the cap; where no thread runs and the loop waits, all are closed and
every permit is back. -/
theorem sockets_kept {h : List (Event × Shown)} (hr : Run (step kind) Any (listen cap) h l) :
    l.sockets.Nodup ∧ (∀ c ∈ l.sockets, c ∈ l.loop.conns ∨ c ∈ l.workers.keys) ∧ l.sockets.length ≤ cap + 1 ∧
      (l.loop = .waiting → l.workers.length = 0 → l.sockets = [] ∧ l.semaphore.value = cap) := by
  have hi : Inv kind cap l := run_inv hr
  have hwith : ∀ c ∈ l.sockets, c ∈ l.loop.conns ∨ c ∈ l.workers.keys := by
    intro c hc
    rcases hi.sockets.1 hc with h | ⟨w, hw, -⟩
    · exact .inl h
    · exact .inr (OrderedDict.mem_keys.2 ⟨w, hw⟩)
  have hle : l.sockets.length ≤ (l.loop.conns ++ l.workers.keys).length :=
    (hi.nodup.subperm fun c hc => List.mem_append.2 (hwith c hc)).length_le
  have hcap : l.workers.length + l.loop.permits ≤ cap := hi.initial ▸ hi.taken.le
  rw [List.length_append, OrderedDict.length_keys] at hle
  refine ⟨hi.nodup, hwith, ?_, fun hl hw => ?_⟩
  · cases hloop : l.loop <;> simp only [hloop, Loop.conns, Loop.permits, List.length_nil, List.length_singleton] at hle hcap <;>
      omega
  · rw [hl, hw] at hle
    have htaken := hi.taken.trans hi.initial
    rw [hl, hw] at htaken
    exact ⟨List.length_eq_zero_iff.1 (Nat.le_zero.1 hle), htaken⟩

/-- A handshake that fails after the descriptor is detached. -/
theorem sockets_kept_sample : ∃ h l, Run (step .tls) Any (listen 1) h l ∧ h.length = 6 ∧ l.sockets = [] ∧
    l.semaphore.value = 1 := by
  obtain ⟨h, l, hr, hl⟩ := exists_any_run (step .tls) (fun l h => h.length = 6 ∧ l.loop = .waiting ∧ l.workers.length = 0)
    (listen 1) [.accept, .acquire, .start, .work 0 (.raises true true), .work 0 .returns, .work 0 .returns] (by decide)
  obtain ⟨hlen, hloop, hnone⟩ := of_decide_eq_true hl
  exact ⟨h, l, hr, hlen, (sockets_kept hr).2.2.2 hloop hnone⟩

end

end AetherNode.Listener
