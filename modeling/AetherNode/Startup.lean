import AetherNode.Lib.Run
import AetherNode.Lib.Text
/-!
# Relays that share a host

`main` of relay.py as far as the file system sees it, for any number of
relay processes on one host whose calls interleave in any order: the lock on
`<socket path>.lock`, the check of a file left at the socket path, the two
binds, and the clean-up of the `finally` clause, which every way out of the
`try` goes through and only a killed process misses.

The lock keeps its word (`one_relay_per_path`, `stale_socket_dead`): one relay
at most is past the lock of a path, and the preparation of a path removes
only the socket of a process that has ended. The clean-up does not ask for the
lock: a start that is refused takes the sockets of the relay that runs with
it (`refused_start_unlinks`).
-/
namespace AetherNode.Startup

open Lib

/-- A relay process. A number names one process only, from its start on. -/
abbrev Pid := Nat

/-- What a directory entry is. A regular file is known by its inode, a socket by the relay that bound it, where it was
one of this history. -/
inductive File
  | regular (inode : Nat)
  | socket (owner : Option Pid)
  | directory
  deriving DecidableEq, Repr

/-- The two listeners of a relay. -/
inductive Side
  | client
  | gossip
  deriving DecidableEq, Repr

/-- The command-line arguments `main` takes its two paths from. -/
structure Args where
  socketPath : Str
  gossipSocketPath : Str
  deriving DecidableEq, Repr

def Args.path (args : Args) : Side → Str
  | .client => args.socketPath
  | .gossip => args.gossipSocketPath

/-- `f"{socket_path}.lock"`. -/
def lockPath (socketPath : Str) : Str := socketPath ++ lit ".lock"

/-- The call of `main` that a process makes next. -/
inductive Stage
  | checkPaths
  | initDb
  /-- `open(lock_path, "w")` and `fcntl.flock` of `_acquire_relay_lock`. -/
  | openLock (s : Side)
  | flock (s : Side) (inode : Nat)
  /-- `p.exists()`, `p.stat()` and `p.unlink()` of `_prepare_socket_path`. -/
  | pathExists (s : Side)
  | stat (s : Side)
  | unlinkStale (s : Side)
  /-- The relay's identity, its peers, and the objects that are not listeners. -/
  | identity
  /-- `server_bind` of a listener, and `os.chmod` of its path. -/
  | bind (s : Side)
  | chmod (s : Side)
  /-- `server.serve_forever()`. -/
  | serving
  /-- The `finally` clause: everything is stopped, then the two paths are unlinked. -/
  | stop
  | unlink (s : Side)
  | return
  | exited
  deriving DecidableEq, Repr

def Side.index : Side → Nat
  | .client => 0
  | .gossip => 1

/-- The place of a call in `main`. -/
def Stage.rank : Stage → Nat
  | .checkPaths => 0
  | .initDb => 1
  | .openLock s => 2 + 5 * s.index
  | .flock s _ => 3 + 5 * s.index
  | .pathExists s => 4 + 5 * s.index
  | .stat s => 5 + 5 * s.index
  | .unlinkStale s => 6 + 5 * s.index
  | .identity => 12
  | .bind s => 13 + 2 * s.index
  | .chmod s => 14 + 2 * s.index
  | .serving => 17
  | .stop => 18
  | .unlink s => 19 + s.index
  | .return => 21
  | .exited => 22

/-- The process has the lock of a path and has not begun to clean up. -/
def Stage.locked (t : Stage) (s : Side) : Prop := (Stage.flock s 0).rank < t.rank ∧ t.rank ≤ Stage.serving.rank

/-- The process has bound a path and has not begun to clean up. -/
def Stage.bound (t : Stage) (s : Side) : Prop := (Stage.bind s).rank < t.rank ∧ t.rank ≤ Stage.serving.rank

instance (t : Stage) (s : Side) : Decidable (t.locked s) := inferInstanceAs (Decidable (_ ∧ _))

instance (t : Stage) (s : Side) : Decidable (t.bound s) := inferInstanceAs (Decidable (_ ∧ _))

theorem Stage.bound.locked {t : Stage} {s : Side} (h : t.bound s) : t.locked s := by
  cases s <;> simp only [Stage.bound, Stage.locked, Stage.rank, Side.index] at * <;> omega

structure Proc where
  args : Args
  stage : Stage
  deriving DecidableEq, Repr

/-- A host: its files, the process that holds the lock of each inode, and its relay processes. -/
structure Host where
  files : Str → Option File
  nextInode : Nat
  locks : Nat → Option Pid
  procs : Pid → Option Proc

/-- The process goes on to another call. -/
def Host.goto (w : Host) (pid : Pid) (p : Proc) (t : Stage) : Host :=
  { w with procs := fun q => if q = pid then some { p with stage := t } else w.procs q }

/-- The process ends, and with it every lock it has. -/
def Host.exit (w : Host) (pid : Pid) (p : Proc) : Host :=
  { w.goto pid p .exited with locks := fun i => if w.locks i = some pid then none else w.locks i }

def Host.put (w : Host) (path : Str) (f : Option File) : Host :=
  { w with files := fun q => if q = path then f else w.files q }

def Host.lock (w : Host) (inode : Nat) (pid : Pid) : Host :=
  { w with locks := fun i => if i = inode then some pid else w.locks i }

/-- What a call took from the file system. -/
inductive Did
  | nothing
  | removedStale (path : Str) (f : File)
  | cleanedUp (path : Str) (f : File)
  deriving DecidableEq, Repr

/-- The call after a path is prepared; `p.parent.mkdir` makes no directory the lock file was not opened in. -/
def afterPrepare : Side → Stage
  | .client => .openLock .gossip
  | .gossip => .identity

def afterBind : Side → Stage
  | .client => .bind .gossip
  | .gossip => .serving

def afterUnlink : Side → Stage
  | .client => .unlink .gossip
  | .gossip => .return

/-- The next call of process `pid`, which returns or raises as the host has it. An exception, `SystemExit` included,
leads to the `finally` clause. -/
def call (w : Host) (pid : Pid) (p : Proc) : Option (Host × Did) :=
  match p.stage with
  | .checkPaths =>
    -- `sys.exit(1)` before the `try`
    if p.args.socketPath = p.args.gossipSocketPath then some (w.exit pid p, .nothing)
    else some (w.goto pid p .initDb, .nothing)
  | .initDb => some (w.goto pid p (.openLock .client), .nothing)
  | .openLock s =>
    match w.files (lockPath (p.args.path s)) with
    | none =>
      let w' := { w.put (lockPath (p.args.path s)) (some (.regular w.nextInode)) with nextInode := w.nextInode + 1 }
      some (w'.goto pid p (.flock s w.nextInode), .nothing)
    | some (.regular i) => some (w.goto pid p (.flock s i), .nothing)
    | some (.socket _) => some (w.goto pid p .stop, .nothing)
    | some .directory => some (w.goto pid p .stop, .nothing)
  | .flock s i =>
    match w.locks i with
    | none => some ((w.lock i pid).goto pid p (.pathExists s), .nothing)
    -- another relay instance is already running
    | some _ => some (w.goto pid p .stop, .nothing)
  | .pathExists s =>
    match w.files (p.args.path s) with
    | none => some (w.goto pid p (afterPrepare s), .nothing)
    | some _ => some (w.goto pid p (.stat s), .nothing)
  | .stat s =>
    match w.files (p.args.path s) with
    | some (.socket _) => some (w.goto pid p (.unlinkStale s), .nothing)
    -- refusing to delete it automatically, or `FileNotFoundError`
    | _ => some (w.goto pid p .stop, .nothing)
  | .unlinkStale s =>
    match w.files (p.args.path s) with
    | none => some (w.goto pid p .stop, .nothing)
    | some .directory => some (w.goto pid p .stop, .nothing)
    | some f => some ((w.put (p.args.path s) none).goto pid p (afterPrepare s), .removedStale (p.args.path s) f)
  | .identity => some (w.goto pid p (.bind .client), .nothing)
  | .bind s =>
    match w.files (p.args.path s) with
    | none => some ((w.put (p.args.path s) (some (.socket (some pid)))).goto pid p (.chmod s), .nothing)
    | some _ => some (w.goto pid p .stop, .nothing)
  | .chmod s =>
    match w.files (p.args.path s) with
    | none => some (w.goto pid p .stop, .nothing)
    | some _ => some (w.goto pid p (afterBind s), .nothing)
  | .serving => some (w.goto pid p .stop, .nothing)
  | .stop => some (w.goto pid p (.unlink .client), .nothing)
  | .unlink s =>
    match w.files (p.args.path s) with
    | none => some (w.goto pid p (afterUnlink s), .nothing)
    | some .directory => some (w.goto pid p (afterUnlink s), .nothing)
    | some f => some ((w.put (p.args.path s) none).goto pid p (afterUnlink s), .cleanedUp (p.args.path s) f)
  | .return => some (w.exit pid p, .nothing)
  | .exited => none

/-- The next call of process `pid` raises for a reason of its own: permissions, a full disk, a signal. In the `finally`
clause every call is guarded. -/
def fail (w : Host) (pid : Pid) (p : Proc) : Option (Host × Did) :=
  match p.stage with
  | .checkPaths => some (w.exit pid p, .nothing)
  | .stop => some (w.goto pid p (.unlink .client), .nothing)
  | .unlink s => some (w.goto pid p (afterUnlink s), .nothing)
  | .return => none
  | .exited => none
  | _ => some (w.goto pid p .stop, .nothing)

inductive Event
  | start (pid : Pid) (args : Args)
  | call (pid : Pid)
  | fail (pid : Pid)
  /-- The process ends where it is: `SIGKILL`, or a second interrupt while it cleans up. -/
  | kill (pid : Pid)
  deriving DecidableEq, Repr

def Event.pid : Event → Pid
  | .start pid _ => pid
  | .call pid => pid
  | .fail pid => pid
  | .kill pid => pid

def step : System Host Event Did := fun w e =>
  match e with
  | .start pid args =>
    match w.procs pid with
    | none => some (w.goto pid ⟨args, .checkPaths⟩ .checkPaths, .nothing)
    | some _ => none
  | .call pid => (w.procs pid).bind fun p => call w pid p
  | .fail pid => (w.procs pid).bind fun p => fail w pid p
  | .kill pid => (w.procs pid).bind fun p => if p.stage = .exited then none else some (w.exit pid p, .nothing)

/-- Any files, but no relay yet, and so no lock and no socket of one. -/
structure Fresh (w : Host) : Prop where
  procs : ∀ pid, w.procs pid = none
  locks : ∀ i, w.locks i = none
  sockets : ∀ path pid, w.files path ≠ some (.socket (some pid))

/-- No relay is started on a path that is the lock file of another. -/
def Plain (_ : Host) : Event → Prop
  | .start _ args => ∀ s path, args.path s ≠ lockPath path
  | _ => True

@[simp] theorem Host.goto_files (w : Host) (pid : Pid) (p : Proc) (t : Stage) : (w.goto pid p t).files = w.files := rfl

@[simp] theorem Host.goto_locks (w : Host) (pid : Pid) (p : Proc) (t : Stage) : (w.goto pid p t).locks = w.locks := rfl

@[simp] theorem Host.goto_procs (w : Host) (pid : Pid) (p : Proc) (t : Stage) (q : Pid) :
    (w.goto pid p t).procs q = if q = pid then some { p with stage := t } else w.procs q := rfl

@[simp] theorem Host.exit_files (w : Host) (pid : Pid) (p : Proc) : (w.exit pid p).files = w.files := rfl

@[simp] theorem Host.exit_locks (w : Host) (pid : Pid) (p : Proc) (i : Nat) :
    (w.exit pid p).locks i = if w.locks i = some pid then none else w.locks i := rfl

@[simp] theorem Host.exit_procs (w : Host) (pid : Pid) (p : Proc) (q : Pid) :
    (w.exit pid p).procs q = if q = pid then some { p with stage := .exited } else w.procs q := rfl

@[simp] theorem Host.put_files (w : Host) (path : Str) (f : Option File) (q : Str) :
    (w.put path f).files q = if q = path then f else w.files q := rfl

@[simp] theorem Host.put_locks (w : Host) (path : Str) (f : Option File) : (w.put path f).locks = w.locks := rfl

@[simp] theorem Host.put_procs (w : Host) (path : Str) (f : Option File) : (w.put path f).procs = w.procs := rfl

@[simp] theorem Host.lock_files (w : Host) (i : Nat) (pid : Pid) : (w.lock i pid).files = w.files := rfl

@[simp] theorem Host.lock_locks (w : Host) (i : Nat) (pid : Pid) (j : Nat) :
    (w.lock i pid).locks j = if j = i then some pid else w.locks j := rfl

@[simp] theorem Host.lock_procs (w : Host) (i : Nat) (pid : Pid) : (w.lock i pid).procs = w.procs := rfl

/-! ## What one step can do -/

/-- What the process at one step does to the files. -/
inductive Touches (w w' : Host) (pid : Pid) (p : Proc) (t : Stage) : Did → Prop
  | no (hfiles : w'.files = w.files) (hbound : ∀ s, t.bound s → p.stage.bound s)
      (hstat : ∀ s, t = .unlinkStale s → ∃ o, w.files (p.args.path s) = some (.socket o))
      (hopen : ∀ s i, t = .flock s i → w.files (lockPath (p.args.path s)) = some (.regular i)) : Touches w w' pid p t .nothing
  | makes (s) (hat : p.stage = .openLock s) (ht : t = .flock s w.nextInode)
      (hnone : w.files (lockPath (p.args.path s)) = none)
      (hfiles : w'.files = (w.put (lockPath (p.args.path s)) (some (.regular w.nextInode))).files) :
      Touches w w' pid p t .nothing
  | stale (s f) (hat : p.stage = .unlinkStale s) (ht : t = afterPrepare s) (hf : w.files (p.args.path s) = some f)
      (hfiles : w'.files = (w.put (p.args.path s) none).files) :
      Touches w w' pid p t (.removedStale (p.args.path s) f)
  | cleans (s f) (hat : p.stage = .unlink s) (ht : t = afterUnlink s) (hf : w.files (p.args.path s) = some f)
      (hfiles : w'.files = (w.put (p.args.path s) none).files) :
      Touches w w' pid p t (.cleanedUp (p.args.path s) f)
  | binds (s) (hat : p.stage = .bind s) (ht : t = .chmod s) (hnone : w.files (p.args.path s) = none)
      (hfiles : w'.files = (w.put (p.args.path s) (some (.socket (some pid)))).files) :
      Touches w w' pid p t .nothing

/-- One step of a process: where it goes, what happens to the locks, and what to the files. -/
structure Moves (w w' : Host) (pid : Pid) (p : Proc) (t : Stage) (d : Did) : Prop where
  proc : w.procs pid = some p
  procs : ∀ q, w'.procs q = if q = pid then some { p with stage := t } else w.procs q
  rank : p.stage.rank < t.rank
  paths : p.stage = .checkPaths → t ≠ .exited → p.args.path .client ≠ p.args.path .gossip
  locks : (t ≠ .exited ∧ (∀ s, t.locked s → p.stage.locked s) ∧ w'.locks = w.locks) ∨
    (∃ s i, p.stage = .flock s i ∧ w.locks i = none ∧ t = .pathExists s ∧ w'.locks = (w.lock i pid).locks) ∨
    (t = .exited ∧ w'.locks = (w.exit pid p).locks)
  files : Touches w w' pid p t d

section
variable {w w' : Host} {e : Event} {pid q : Pid} {p : Proc} {t : Stage} {d : Did} {s : Side} {path : Str}

theorem Stage.rank_lt_exited (h : t ≠ .exited) : t.rank < Stage.exited.rank := by
  cases t with
  | exited => exact absurd rfl h
  | openLock s | flock s | pathExists s | stat s | unlinkStale s | bind s | chmod s | unlink s =>
    cases s <;> simp [Stage.rank, Side.index]
  | _ => simp [Stage.rank]

/-- A step that changes no file and takes no lock. -/
theorem moves_goto (hp : w.procs pid = some p) (hrank : p.stage.rank < t.rank) (hend : t ≠ .exited)
    (hpaths : p.stage = .checkPaths → p.args.path .client ≠ p.args.path .gossip)
    (hlocked : ∀ s, t.locked s → p.stage.locked s) (hbound : ∀ s, t.bound s → p.stage.bound s)
    (hstat : ∀ s, t = .unlinkStale s → ∃ o, w.files (p.args.path s) = some (.socket o))
    (hopen : ∀ s i, t = .flock s i → w.files (lockPath (p.args.path s)) = some (.regular i)) :
    Moves w (w.goto pid p t) pid p t .nothing where
  proc := hp
  procs _ := rfl
  rank := hrank
  paths hat _ := hpaths hat
  locks := .inl ⟨hend, hlocked, rfl⟩
  files := .no rfl hbound hstat hopen

/-- A step into the `finally` clause. -/
theorem moves_stop (hp : w.procs pid = some p) (h0 : p.stage ≠ .checkPaths) (hrank : p.stage.rank < Stage.stop.rank) :
    Moves w (w.goto pid p .stop) pid p .stop .nothing :=
  moves_goto hp hrank (by simp) (fun h => absurd h h0) (by simp [Stage.locked, Stage.rank]) (by simp [Stage.bound, Stage.rank])
    (by simp) (by simp)

theorem moves_exit (hp : w.procs pid = some p) (hlive : p.stage ≠ .exited) :
    Moves w (w.exit pid p) pid p .exited .nothing where
  proc := hp
  procs _ := rfl
  rank := Stage.rank_lt_exited hlive
  paths _ h := absurd rfl h
  locks := .inr (.inr ⟨rfl, rfl⟩)
  files := .no rfl (by simp [Stage.bound, Stage.rank]) (by simp) (by simp)

theorem Side.forall {P : Side → Prop} : (∀ s, P s) ↔ P .client ∧ P .gossip :=
  ⟨fun h => ⟨h _, h _⟩, fun h s => by cases s; exacts [h.1, h.2]⟩

theorem moves_unlinked {s : Side} (hp : w.procs pid = some p) (hat : p.stage = .unlink s) :
    Moves w (w.goto pid p (afterUnlink s)) pid p (afterUnlink s) .nothing := by
  apply moves_goto hp <;> cases s <;> simp [hat, afterUnlink, Stage.rank, Side.index, Stage.locked, Stage.bound]

theorem call_moves (hp : w.procs pid = some p) (hc : call w pid p = some (w', d)) : ∃ t, Moves w w' pid p t d := by
  cases hat : p.stage with
  | checkPaths =>
    simp only [call, hat] at hc
    split at hc <;> rename_i hpaths <;> cases hc
    · exact ⟨_, moves_exit hp (by simp [hat])⟩
    · refine ⟨_, moves_goto hp ?_ ?_ (fun _ => hpaths) ?_ ?_ ?_ ?_⟩ <;> simp [hat, Stage.rank, Stage.locked, Stage.bound]
  | initDb =>
    simp only [call, hat] at hc
    cases hc
    refine ⟨_, moves_goto hp ?_ ?_ ?_ ?_ ?_ ?_ ?_⟩ <;> simp [hat, Stage.rank, Stage.locked, Stage.bound, Side.index, Side.forall]
  | openLock s =>
    simp only [call, hat] at hc
    split at hc <;> rename_i hfile <;> cases hc
    · refine ⟨_, hp, fun _ => rfl, ?_, ?_, .inl ⟨?_, ?_, rfl⟩, .makes s hat rfl hfile rfl⟩ <;> cases s <;>
        simp [hat, Stage.rank, Side.index, Stage.locked, Side.forall]
    · refine ⟨_, moves_goto hp ?_ ?_ ?_ ?_ ?_ ?_ ?_⟩ <;> cases s <;>
        simp [hat, Stage.rank, Stage.locked, Stage.bound, Side.index, Side.forall, hfile]
    all_goals exact ⟨_, moves_stop hp (by simp [hat]) (by cases s <;> simp [hat, Stage.rank, Side.index])⟩
  | flock s i =>
    simp only [call, hat] at hc
    split at hc <;> rename_i hfree <;> cases hc
    · refine ⟨_, hp, fun _ => rfl, ?_, ?_, .inr (.inl ⟨s, i, hat, hfree, rfl, rfl⟩), .no rfl ?_ ?_ ?_⟩ <;> cases s <;>
        simp [hat, Stage.rank, Side.index, Stage.bound, Side.forall]
    · exact ⟨_, moves_stop hp (by simp [hat]) (by cases s <;> simp [hat, Stage.rank, Side.index])⟩
  | pathExists s =>
    simp only [call, hat] at hc
    split at hc <;> cases hc <;> refine ⟨_, moves_goto hp ?_ ?_ ?_ ?_ ?_ ?_ ?_⟩ <;> cases s <;>
        simp [hat, Stage.rank, Stage.locked, Stage.bound, Side.index, Side.forall, afterPrepare]
  | stat s =>
    simp only [call, hat] at hc
    split at hc <;> rename_i hfile <;> cases hc
    · refine ⟨_, moves_goto hp ?_ ?_ ?_ ?_ ?_ ?_ ?_⟩ <;> cases s <;>
        simp [hat, Stage.rank, Stage.locked, Stage.bound, Side.index, Side.forall, hfile]
    · exact ⟨_, moves_stop hp (by simp [hat]) (by cases s <;> simp [hat, Stage.rank, Side.index])⟩
  | unlinkStale s =>
    simp only [call, hat] at hc
    split at hc <;> rename_i hfile <;> cases hc
    · exact ⟨_, moves_stop hp (by simp [hat]) (by cases s <;> simp [hat, Stage.rank, Side.index])⟩
    · exact ⟨_, moves_stop hp (by simp [hat]) (by cases s <;> simp [hat, Stage.rank, Side.index])⟩
    · refine ⟨_, hp, fun _ => rfl, ?_, ?_, .inl ⟨?_, ?_, rfl⟩, .stale s _ hat rfl hfile rfl⟩ <;> cases s <;>
        simp [hat, afterPrepare, Stage.rank, Side.index, Stage.locked, Side.forall]
  | identity =>
    simp only [call, hat] at hc
    cases hc
    refine ⟨_, moves_goto hp ?_ ?_ ?_ ?_ ?_ ?_ ?_⟩ <;>
      simp [hat, Stage.rank, Stage.locked, Stage.bound, Side.index, Side.forall]
  | bind s =>
    simp only [call, hat] at hc
    split at hc <;> rename_i hfile <;> cases hc
    · refine ⟨_, hp, fun _ => rfl, ?_, ?_, .inl ⟨?_, ?_, rfl⟩, .binds s hat rfl hfile rfl⟩ <;> cases s <;>
        simp [hat, Stage.rank, Side.index, Stage.locked, Side.forall]
    · exact ⟨_, moves_stop hp (by simp [hat]) (by cases s <;> simp [hat, Stage.rank, Side.index])⟩
  | chmod s =>
    simp only [call, hat] at hc
    split at hc <;> cases hc
    · exact ⟨_, moves_stop hp (by simp [hat]) (by cases s <;> simp [hat, Stage.rank, Side.index])⟩
    · refine ⟨_, moves_goto hp ?_ ?_ ?_ ?_ ?_ ?_ ?_⟩ <;> cases s <;>
        simp [hat, Stage.rank, Stage.locked, Stage.bound, Side.index, Side.forall, afterBind]
  | serving =>
    simp only [call, hat] at hc
    cases hc
    exact ⟨_, moves_stop hp (by simp [hat]) (by simp [hat, Stage.rank])⟩
  | stop =>
    simp only [call, hat] at hc
    cases hc
    refine ⟨_, moves_goto hp ?_ ?_ ?_ ?_ ?_ ?_ ?_⟩ <;> simp [hat, Stage.rank, Stage.locked, Stage.bound, Side.index]
  | unlink s =>
    simp only [call, hat] at hc
    split at hc <;> rename_i hfile <;> cases hc
    · exact ⟨_, moves_unlinked hp hat⟩
    · exact ⟨_, moves_unlinked hp hat⟩
    · refine ⟨_, hp, fun _ => rfl, ?_, ?_, .inl ⟨?_, ?_, rfl⟩, .cleans s _ hat rfl hfile rfl⟩ <;> cases s <;>
        simp [hat, afterUnlink, Stage.rank, Side.index, Stage.locked]
  | «return» =>
    simp only [call, hat] at hc
    cases hc
    exact ⟨_, moves_exit hp (by simp [hat])⟩
  | exited => simp [call, hat] at hc

theorem fail_moves (hp : w.procs pid = some p) (hc : fail w pid p = some (w', d)) : ∃ t, Moves w w' pid p t d := by
  cases hat : p.stage with
  | checkPaths =>
    simp only [fail, hat] at hc
    cases hc
    exact ⟨_, moves_exit hp (by simp [hat])⟩
  | stop =>
    simp only [fail, hat] at hc
    cases hc
    refine ⟨_, moves_goto hp ?_ ?_ ?_ ?_ ?_ ?_ ?_⟩ <;> simp [hat, Stage.rank, Stage.locked, Stage.bound, Side.index]
  | unlink s =>
    simp only [fail, hat] at hc
    cases hc
    exact ⟨_, moves_unlinked hp hat⟩
  | «return» | exited => simp [fail, hat] at hc
  | initDb | identity | serving =>
    simp only [fail, hat] at hc
    cases hc
    exact ⟨_, moves_stop hp (by simp [hat]) (by simp [hat, Stage.rank])⟩
  | openLock s | flock s | pathExists s | stat s | unlinkStale s | bind s | chmod s =>
    simp only [fail, hat] at hc
    cases hc
    exact ⟨_, moves_stop hp (by simp [hat]) (by cases s <;> simp [hat, Stage.rank, Side.index])⟩


theorem step_cases (hs : step w e = some (w', d)) :
    (∃ pid args, e = .start pid args ∧ w.procs pid = none ∧ w' = w.goto pid ⟨args, .checkPaths⟩ .checkPaths ∧ d = .nothing) ∨
      ∃ p t, Moves w w' e.pid p t d := by
  cases e with
  | start pid args =>
    simp only [step] at hs
    split at hs <;> rename_i hp <;> cases hs
    exact .inl ⟨pid, args, rfl, hp, rfl, rfl⟩
  | call pid =>
    obtain ⟨p, hp, hc⟩ := Option.bind_eq_some_iff.1 hs
    exact .inr ⟨p, call_moves hp hc⟩
  | fail pid =>
    obtain ⟨p, hp, hc⟩ := Option.bind_eq_some_iff.1 hs
    exact .inr ⟨p, fail_moves hp hc⟩
  | kill pid =>
    obtain ⟨p, hp, hc⟩ := Option.bind_eq_some_iff.1 hs
    split at hc <;> rename_i hlive <;> cases hc
    exact .inr ⟨p, _, moves_exit hp hlive⟩

/-- One path changes in a step at most, and in one of three ways. -/
theorem Moves.files_at (hm : Moves w w' pid p t d) (path : Str) :
    w'.files path = w.files path ∨
      (w'.files path = none ∧ ∃ s, path = p.args.path s) ∨
      (∃ s, path = lockPath (p.args.path s) ∧ w.files path = none ∧ w'.files path = some (.regular w.nextInode)) ∨
      ∃ s, p.stage = .bind s ∧ path = p.args.path s ∧ w.files path = none ∧ t = .chmod s ∧
        w'.files path = some (.socket (some pid)) := by
  cases hm.files with
  | no hfiles => exact .inl (by rw [hfiles])
  | makes s hat ht hnone hfiles =>
    rw [hfiles, Host.put_files]
    split <;> rename_i hp
    · exact .inr (.inr (.inl ⟨s, hp, hp ▸ hnone, rfl⟩))
    · exact .inl rfl
  | stale s f hat ht hf hfiles | cleans s f hat ht hf hfiles =>
    rw [hfiles, Host.put_files]
    split <;> rename_i hp
    · exact .inr (.inl ⟨rfl, s, hp⟩)
    · exact .inl rfl
  | binds s hat ht hnone hfiles =>
    rw [hfiles, Host.put_files]
    split <;> rename_i hp
    · exact .inr (.inr (.inr ⟨s, hat, hp, hp ▸ hnone, ht, rfl⟩))
    · exact .inl rfl

/-! ## The lock of a path -/

/-- The process has the lock of a path: the lock file is there, and its inode is locked by the process. -/
def Holds (w : Host) (pid : Pid) (path : Str) : Prop :=
  ∃ i, w.files (lockPath path) = some (.regular i) ∧ w.locks i = some pid

theorem Holds.unique (h : Holds w pid path) (h' : Holds w q path) : pid = q := by
  obtain ⟨i, hfile, hlock⟩ := h
  obtain ⟨j, hfile', hlock'⟩ := h'
  rw [hfile] at hfile'
  cases hfile'
  simpa [hlock] using hlock'

/-- What holds of a host whose relays were started on plain paths. -/
structure Inv (w : Host) : Prop where
  plain : ∀ {pid p}, w.procs pid = some p → ∀ s path, p.args.path s ≠ lockPath path
  apart : ∀ {pid p}, w.procs pid = some p → p.stage ≠ .checkPaths → p.stage ≠ .exited →
    p.args.path .client ≠ p.args.path .gossip
  opened : ∀ {pid p s i}, w.procs pid = some p → p.stage = .flock s i →
    w.files (lockPath (p.args.path s)) = some (.regular i)
  locked : ∀ {pid p s}, w.procs pid = some p → p.stage.locked s → Holds w pid (p.args.path s)
  /-- The relay that bound a socket has the lock of its path for as long as it runs. -/
  owned : ∀ {path q}, w.files path = some (.socket (some q)) → ∃ p s, w.procs q = some p ∧ path = p.args.path s ∧
    (Stage.bind s).rank < p.stage.rank ∧ (p.stage ≠ .exited → Holds w q path)
  /-- Nothing but its own socket is at the path of a relay that has bound it. -/
  bound : ∀ {pid p s}, w.procs pid = some p → p.stage.bound s →
    w.files (p.args.path s) = none ∨ w.files (p.args.path s) = some (.socket (some pid))
  checked : ∀ {pid p s}, w.procs pid = some p → p.stage = .unlinkStale s →
    w.files (p.args.path s) = none ∨ ∃ o, w.files (p.args.path s) = some (.socket o)

/-- No step takes a lock file away. -/
theorem Moves.lock_file (hi : Inv w) (hm : Moves w w' pid p t d) {i : Nat}
    (hf : w.files (lockPath path) = some (.regular i)) : w'.files (lockPath path) = some (.regular i) := by
  rcases hm.files_at (lockPath path) with h | ⟨-, s, h⟩ | ⟨s, -, h, -⟩ | ⟨s, -, -, h, -⟩
  · rw [h, hf]
  · exact absurd h.symm (hi.plain hm.proc s path)
  · simp [hf] at h
  · simp [hf] at h

/-- A process keeps its locks until it ends. -/
theorem Moves.holds (hi : Inv w) (hm : Moves w w' pid p t d) (hh : Holds w q path) (hq : q = pid → t ≠ .exited) :
    Holds w' q path := by
  obtain ⟨i, hfile, hlock⟩ := hh
  refine ⟨i, hm.lock_file hi hfile, ?_⟩
  rcases hm.locks with ⟨-, -, h⟩ | ⟨s, j, -, hfree, -, h⟩ | ⟨hend, h⟩
  · rw [h, hlock]
  · rw [h, Host.lock_locks, if_neg (by rintro rfl; simp [hlock] at hfree), hlock]
  · have hne : pid ≠ q := fun h => hq h.symm hend
    rw [h, Host.exit_locks, if_neg (by simpa [hlock] using Ne.symm hne), hlock]

theorem Moves.proc_cases (hm : Moves w w' pid p t d) {p' : Proc} (hp : w'.procs q = some p') :
    (q = pid ∧ p' = { p with stage := t }) ∨ (q ≠ pid ∧ w.procs q = some p') := by
  rw [hm.procs] at hp
  split at hp <;> rename_i hq
  · cases hp
    exact .inl ⟨hq, rfl⟩
  · exact .inr ⟨hq, hp⟩

theorem Moves.live (hm : Moves w w' pid p t d) : p.stage ≠ .exited := by
  intro h
  have hrank := hm.rank
  rw [h] at hrank
  have hle : t.rank ≤ Stage.exited.rank := by
    by_cases ht : t = .exited
    · rw [ht]
    · exact (Stage.rank_lt_exited ht).le
  omega

/-- A process that binds has the lock. -/
theorem Inv.binding (hi : Inv w) (hp : w.procs pid = some p) (hat : p.stage = .bind s) : Holds w pid (p.args.path s) :=
  hi.locked hp (by cases s <;> simp [hat, Stage.locked, Stage.rank, Side.index])

theorem Moves.opened (hi : Inv w) (hm : Moves w w' pid p t d) {p' : Proc} {i : Nat} (hp : w'.procs q = some p')
    (hat : p'.stage = .flock s i) : w'.files (lockPath (p'.args.path s)) = some (.regular i) := by
  rcases hm.proc_cases hp with ⟨rfl, rfl⟩ | ⟨-, hp⟩
  · change t = .flock s i at hat
    cases hm.files with
    | no hfiles _ _ hopen =>
      rw [hfiles]
      exact hopen s i hat
    | makes s' _ ht _ hfiles =>
      obtain ⟨rfl, rfl⟩ : s = s' ∧ i = w.nextInode := by simpa using hat.symm.trans ht
      rw [hfiles, Host.put_files, if_pos rfl]
    | stale s' _ _ ht | cleans s' _ _ ht | binds s' _ ht =>
      rw [hat] at ht
      cases s' <;> simp [afterPrepare, afterUnlink] at ht
  · exact hm.lock_file hi (hi.opened hp hat)

theorem Moves.locked (hi : Inv w) (hm : Moves w w' pid p t d) {p' : Proc} (hp : w'.procs q = some p')
    (hl : p'.stage.locked s) : Holds w' q (p'.args.path s) := by
  rcases hm.proc_cases hp with ⟨rfl, rfl⟩ | ⟨hq, hp⟩
  · change t.locked s at hl
    change Holds w' q (p.args.path s)
    have hend : t ≠ .exited := by
      rintro rfl
      simp [Stage.locked, Stage.rank] at hl
    rcases hm.locks with ⟨-, hkeep, -⟩ | ⟨s', i, hat, -, ht, hlocks⟩ | ⟨h, -⟩
    · exact hm.holds hi (hi.locked hm.proc (hkeep s hl)) fun _ => hend
    · by_cases hs : s = s'
      · subst hs
        exact ⟨i, hm.lock_file hi (hi.opened hm.proc hat), by simp [hlocks]⟩
      · refine hm.holds hi (hi.locked hm.proc ?_) fun _ => hend
        rw [ht] at hl
        cases s <;> cases s' <;> simp [hat, Stage.locked, Stage.rank, Side.index] at hs hl ⊢
    · exact absurd h hend
  · exact hm.holds hi (hi.locked hp hl) fun h => absurd h hq

theorem Moves.owned (hi : Inv w) (hm : Moves w w' pid p t d) (hf : w'.files path = some (.socket (some q))) :
    ∃ p s, w'.procs q = some p ∧ path = p.args.path s ∧ (Stage.bind s).rank < p.stage.rank ∧
      (p.stage ≠ .exited → Holds w' q path) := by
  rcases hm.files_at path with h | ⟨h, -⟩ | ⟨s, -, -, h⟩ | ⟨s, hat, rfl, -, ht, h⟩
  · rw [h] at hf
    obtain ⟨p₀, s, hp, rfl, hrank, hh⟩ := hi.owned hf
    by_cases hq : q = pid
    · subst hq
      obtain rfl : p₀ = p := by simpa [hm.proc] using hp.symm
      refine ⟨{ p₀ with stage := t }, s, by simp [hm.procs], rfl, hrank.trans hm.rank, fun hend => ?_⟩
      exact hm.holds hi (hh hm.live) fun _ => hend
    · refine ⟨p₀, s, by simp [hm.procs, hq, hp], rfl, hrank, fun hend => ?_⟩
      exact hm.holds hi (hh hend) fun h => absurd h hq
  · simp [h] at hf
  · simp [h] at hf
  · obtain rfl : q = pid := by simpa [h] using hf.symm
    refine ⟨{ p with stage := t }, s, by simp [hm.procs], rfl, by simp [ht, Stage.rank], fun hend => ?_⟩
    exact hm.holds hi (hi.binding hm.proc hat) fun _ => hend

/-- A process has bound a path before a step, or the step puts its socket there. -/
theorem Moves.binds (hm : Moves w w' pid p t d) (hb : t.bound s) :
    p.stage.bound s ∨ w'.files (p.args.path s) = some (.socket (some pid)) := by
  cases hm.files with
  | no _ hbound => exact .inl (hbound s hb)
  | makes s' _ ht | stale s' _ _ ht | cleans s' _ _ ht =>
    rw [ht] at hb
    cases s <;> cases s' <;> simp [Stage.bound, Stage.rank, Side.index, afterPrepare, afterUnlink] at hb
  | binds s' hat ht hnone hfiles =>
    by_cases hs : s = s'
    · exact .inr (by rw [hfiles, Host.put_files, if_pos (by rw [hs])])
    · rw [ht] at hb
      left
      cases s <;> cases s' <;> simp [hat, Stage.bound, Stage.rank, Side.index] at hs hb ⊢

theorem Moves.bound (hi : Inv w) (hm : Moves w w' pid p t d) {p' : Proc} (hp : w'.procs q = some p')
    (hb : p'.stage.bound s) :
    w'.files (p'.args.path s) = none ∨ w'.files (p'.args.path s) = some (.socket (some q)) := by
  rcases hm.proc_cases hp with ⟨rfl, rfl⟩ | ⟨hq, hp⟩
  · rcases hm.binds hb with hold | h
    · rcases hm.files_at (p.args.path s) with h | ⟨h, -⟩ | ⟨s', h, -⟩ | ⟨s', -, -, -, -, h⟩
      · exact h ▸ hi.bound hm.proc hold
      · exact .inl h
      · exact absurd h (hi.plain hm.proc s _)
      · exact .inr h
    · exact .inr h
  · rcases hm.files_at (p'.args.path s) with h | ⟨h, -⟩ | ⟨s', h, -⟩ | ⟨s', hat, h, -⟩
    · rw [h]
      exact hi.bound hp hb
    · exact .inl h
    · exact absurd h (hi.plain hp s _)
    · exact absurd ((hi.locked hp hb.locked).unique (h ▸ hi.binding hm.proc hat)) hq

theorem Moves.checked (hi : Inv w) (hm : Moves w w' pid p t d) {p' : Proc} (hp : w'.procs q = some p')
    (hat : p'.stage = .unlinkStale s) :
    w'.files (p'.args.path s) = none ∨ ∃ o, w'.files (p'.args.path s) = some (.socket o) := by
  rcases hm.proc_cases hp with ⟨rfl, rfl⟩ | ⟨hq, hp⟩
  · change t = .unlinkStale s at hat
    cases hm.files with
    | no hfiles _ hstat =>
      rw [hfiles]
      exact .inr (hstat s hat)
    | makes s' _ ht | stale s' _ _ ht | cleans s' _ _ ht | binds s' _ ht =>
      rw [hat] at ht
      cases s' <;> simp [afterPrepare, afterUnlink] at ht
  · rcases hm.files_at (p'.args.path s) with h | ⟨h, -⟩ | ⟨s', h, -⟩ | ⟨s', -, -, -, -, h⟩
    · rw [h]
      exact hi.checked hp hat
    · exact .inl h
    · exact absurd h (hi.plain hp s _)
    · exact .inr ⟨_, h⟩

theorem Moves.apart (hi : Inv w) (hm : Moves w w' pid p t d) {p' : Proc} (hp : w'.procs q = some p')
    (h0 : p'.stage ≠ .checkPaths) (hend : p'.stage ≠ .exited) : p'.args.path .client ≠ p'.args.path .gossip := by
  rcases hm.proc_cases hp with ⟨rfl, rfl⟩ | ⟨-, hp⟩
  · change p.args.path .client ≠ p.args.path .gossip
    by_cases hat : p.stage = .checkPaths
    · exact hm.paths hat hend
    · exact hi.apart hm.proc hat hm.live
  · exact hi.apart hp h0 hend

theorem Moves.inv (hi : Inv w) (hm : Moves w w' pid p t d) : Inv w' where
  plain hp := by
    rcases hm.proc_cases hp with ⟨-, rfl⟩ | ⟨-, hp⟩
    · exact fun s path => hi.plain hm.proc s path
    · exact hi.plain hp
  apart hp := hm.apart hi hp
  opened hp := hm.opened hi hp
  locked hp := hm.locked hi hp
  owned hf := hm.owned hi hf
  bound hp := hm.bound hi hp
  checked hp := hm.checked hi hp

theorem start_inv {args : Args} (hi : Inv w) (hnew : w.procs pid = none) (hplain : Plain w (.start pid args)) :
    Inv (w.goto pid ⟨args, .checkPaths⟩ .checkPaths) := by
  have hcases : ∀ {q p}, (w.goto pid ⟨args, .checkPaths⟩ .checkPaths).procs q = some p →
      p = ⟨args, .checkPaths⟩ ∨ w.procs q = some p := by
    intro q p hp
    rw [Host.goto_procs] at hp
    split at hp
    · exact .inl (Option.some.inj hp).symm
    · exact .inr hp
  constructor
  case plain =>
    intro q p hp
    rcases hcases hp with rfl | hp
    · exact hplain
    · exact hi.plain hp
  case apart =>
    intro q p hp h0
    rcases hcases hp with rfl | hp
    · exact absurd rfl h0
    · exact hi.apart hp h0
  case opened =>
    intro q p s i hp hat
    rcases hcases hp with rfl | hp
    · cases hat
    · exact hi.opened hp hat
  case locked =>
    intro q p s hp hl
    rcases hcases hp with rfl | hp
    · simp [Stage.locked, Stage.rank] at hl
    · exact hi.locked hp hl
  case owned =>
    intro path q hf
    obtain ⟨p, s, hp, rest⟩ := hi.owned hf
    have hne : q ≠ pid := by
      rintro rfl
      simp [hnew] at hp
    exact ⟨p, s, by simp [hne, hp], rest⟩
  case bound =>
    intro q p s hp hb
    rcases hcases hp with rfl | hp
    · simp [Stage.bound, Stage.rank] at hb
    · exact hi.bound hp hb
  case checked =>
    intro q p s hp hat
    rcases hcases hp with rfl | hp
    · cases hat
    · exact hi.checked hp hat

theorem step_inv (hi : Inv w) (hok : Plain w e) (hs : step w e = some (w', d)) : Inv w' := by
  rcases step_cases hs with ⟨pid, args, rfl, hnew, rfl, -⟩ | ⟨p, t, hm⟩
  · exact start_inv hi hnew hok
  · exact hm.inv hi

theorem Fresh.inv (hf : Fresh w) : Inv w where
  plain hp := by simp [hf.procs] at hp
  apart hp := by simp [hf.procs] at hp
  opened hp := by simp [hf.procs] at hp
  locked hp := by simp [hf.procs] at hp
  owned h := absurd h (hf.sockets _ _)
  bound hp := by simp [hf.procs] at hp
  checked hp := by simp [hf.procs] at hp

theorem run_inv {h : List (Event × Did)} (hf : Fresh w) (hr : Run step Plain w h w') : Inv w' :=
  hr.inv Inv hf.inv fun _ _ _ _ hi ho hs => step_inv hi ho hs

end

/-! ## A host to try it on -/

/-- `Plain`, as far as it can be read off the arguments. -/
def plain (_ : Host) : Event → Bool
  | .start _ args => !(lit ".lock").isSuffixOf args.socketPath && !(lit ".lock").isSuffixOf args.gossipSocketPath
  | _ => true

theorem plain_sound {w : Host} {e : Event} (h : plain w e = true) : Plain w e := by
  cases e with
  | start pid args =>
    simp only [plain, Bool.and_eq_true, Bool.not_eq_true', List.isSuffixOf_iff_suffix, ← Bool.not_eq_true] at h
    rintro s path hs
    have hsuffix : lit ".lock" <:+ args.path s := hs ▸ List.suffix_append path _
    cases s
    · exact h.1 hsuffix
    · exact h.2 hsuffix
  | _ => trivial

def bare : Host := ⟨fun _ => none, 0, fun _ => none, fun _ => none⟩

theorem fresh_bare : Fresh bare := ⟨fun _ => rfl, fun _ => rfl, by simp [bare]⟩

/-- The bare host after some events. -/
def sampleHost (es : List Event) : Host := ((exec step plain bare es).map Prod.fst).getD bare

theorem run_sampleHost (es : List Event) (h : (exec step plain bare es).isSome = true) :
    ∃ hist, Run step Plain bare hist (sampleHost es) := by
  obtain ⟨⟨w, hist⟩, hx⟩ := Option.isSome_iff_exists.1 h
  refine ⟨hist, ?_⟩
  rw [show sampleHost es = w by simp [sampleHost, hx]]
  exact (exec_run hx).mono fun _ _ => plain_sound

def sampleArgs : Args := ⟨lit "a", lit "b"⟩

/-- A relay starts on a bare host and serves. -/
def sampleServing : List Event := .start 0 sampleArgs :: List.replicate 13 (.call 0)

/-- A second one serves on other paths. -/
def sampleTwo : List Event := sampleServing ++ .start 1 ⟨lit "c", lit "d"⟩ :: List.replicate 13 (.call 1)

/-- The relay is killed, and the next start has found its socket stale. -/
def sampleStale : List Event := sampleServing ++ .kill 0 :: .start 1 sampleArgs :: List.replicate 6 (.call 1)

/-- A second start on the same paths has come to the lock. -/
def sampleRefused : List Event := sampleServing ++ .start 1 sampleArgs :: List.replicate 3 (.call 1)

section
variable {w w' : Host} {e : Event} {pid q : Pid} {p : Proc} {t : Stage} {d : Did} {s : Side} {path : Str}

/-! ## What the lock protects -/

/-- In whatever order the calls of any number of relays come, two that are past the lock of a
path, or the two sides of one, are past the locks of different paths. -/
theorem one_relay_per_path {w₀ : Host} {h : List (Event × Did)} (hf : Fresh w₀) (hr : Run step Plain w₀ h w) {p' : Proc}
    {s' : Side} (hp : w.procs pid = some p) (hp' : w.procs q = some p') (hl : p.stage.locked s) (hl' : p'.stage.locked s')
    (hne : (pid, s) ≠ (q, s')) : p.args.path s ≠ p'.args.path s' := by
  intro hpath
  have hi : Inv w := run_inv hf hr
  obtain rfl : pid = q := (hi.locked hp hl).unique (hpath ▸ hi.locked hp' hl')
  obtain rfl : p = p' := by simpa [hp] using hp'
  have hapart : p.args.path .client ≠ p.args.path .gossip := by
    refine hi.apart hp ?_ ?_ <;> intro hat <;> simp [hat, Stage.locked, Stage.rank] at hl
  cases s <;> cases s'
  · exact hne rfl
  · exact hapart hpath
  · exact hapart hpath.symm
  · exact hne rfl

theorem one_relay_per_path_sample :
    (sampleHost sampleTwo).procs 0 = some ⟨sampleArgs, .serving⟩ ∧
      (sampleHost sampleTwo).procs 1 = some ⟨⟨lit "c", lit "d"⟩, .serving⟩ ∧ lit "a" ≠ lit "d" := by
  obtain ⟨h, hr⟩ := run_sampleHost sampleTwo (by decide)
  have h0 : (sampleHost sampleTwo).procs 0 = some ⟨sampleArgs, .serving⟩ := by decide
  have h1 : (sampleHost sampleTwo).procs 1 = some ⟨⟨lit "c", lit "d"⟩, .serving⟩ := by decide
  exact ⟨h0, h1, one_relay_per_path fresh_bare hr h0 h1 (show Stage.serving.locked .client by decide)
    (show Stage.serving.locked .gossip by decide) (by decide)⟩

/-- Without `Plain` the lock does not protect: a start that gives the lock file of another relay as a path deletes it,
and a third start then locks a file of that name of its own. -/
example : ((exec step (fun _ _ => true) bare (sampleServing ++ .start 1 ⟨lit "c", lockPath (lit "a")⟩ ::
      List.replicate 12 (.call 1) ++ .start 2 ⟨lit "a", lit "d"⟩ :: List.replicate 15 (.call 2))).any fun r =>
    r.1.procs 0 = some ⟨sampleArgs, .serving⟩ ∧ r.1.procs 2 = some ⟨⟨lit "a", lit "d"⟩, .serving⟩) = true := by
  decide

/-- The preparation of a path removes nothing but a socket, and where a relay bound it,
that relay has ended. -/
theorem stale_socket_dead {w₀ : Host} {h : List (Event × Did)} {f : File} (hf : Fresh w₀) (hr : Run step Plain w₀ h w)
    (hs : step w e = some (w', .removedStale path f)) :
    ∃ o, f = .socket o ∧ ∀ q, o = some q → ∃ p, w.procs q = some p ∧ p.stage = .exited := by
  have hi : Inv w := run_inv hf hr
  rcases step_cases hs with ⟨pid, args, -, -, -, h⟩ | ⟨p, t, hm⟩
  · cases h
  · obtain ⟨s, hat, rfl, hfile⟩ : ∃ s, p.stage = .unlinkStale s ∧ path = p.args.path s ∧ w.files path = some f := by
      cases hm.files with | stale s f hat ht hfile => exact ⟨s, hat, rfl, hfile⟩
    obtain ⟨o, ho⟩ : ∃ o, f = .socket o := by
      rcases hi.checked hm.proc hat with h | ⟨o, h⟩
      · simp [h] at hfile
      · exact ⟨o, by simpa [h] using hfile.symm⟩
    refine ⟨o, ho, ?_⟩
    rintro q rfl
    subst ho
    obtain ⟨p', s', hp', -, hrank, hh⟩ := hi.owned hfile
    refine ⟨p', hp', ?_⟩
    by_contra hlive
    have hlocked : p.stage.locked s := by cases s <;> simp [hat, Stage.locked, Stage.rank, Side.index]
    -- the owner would be the process itself, which has bound nothing yet
    obtain rfl : e.pid = q := (hi.locked hm.proc hlocked).unique (hh hlive)
    obtain rfl : p = p' := by simpa [hm.proc] using hp'
    cases s <;> cases s' <;> simp [hat, Stage.rank, Side.index] at hrank

theorem stale_socket_dead_sample : ∃ o, File.socket (some 0) = .socket o ∧
    ∀ q, o = some q → ∃ p, (sampleHost sampleStale).procs q = some p ∧ p.stage = .exited := by
  obtain ⟨h, hr⟩ := run_sampleHost sampleStale (by decide)
  have hs : (step (sampleHost sampleStale) (.call 1)).map Prod.snd = some (.removedStale (lit "a") (.socket (some 0))) := by
    decide
  obtain ⟨⟨w', d⟩, hs, rfl⟩ := Option.map_eq_some_iff.1 hs
  exact stale_socket_dead fresh_bare hr hs

/-! ## What the clean-up takes -/

theorem Stage.bound.of_le {t' : Stage} (h : t'.bound s) (hle : t.rank ≤ t'.rank) (hlow : (Stage.bind s).rank < t.rank) :
    t.bound s :=
  ⟨hlow, hle.trans h.2⟩

theorem step_other (hs : step w e = some (w', d)) (hq : q ≠ e.pid) : w'.procs q = w.procs q := by
  rcases step_cases hs with ⟨pid, args, rfl, -, rfl, -⟩ | ⟨p, t, hm⟩
  · simp [show q ≠ pid from hq]
  · simp [hm.procs, hq]

/-- A process keeps its arguments and goes forward only. -/
theorem step_proc (hs : step w e = some (w', d)) (hp : w.procs q = some p) :
    ∃ p', w'.procs q = some p' ∧ p'.args = p.args ∧ p.stage.rank ≤ p'.stage.rank := by
  by_cases hq : q = e.pid
  · rcases step_cases hs with ⟨pid, args, rfl, hnew, -, -⟩ | ⟨p₁, t, hm⟩
    · simp [show q = pid from hq, hnew] at hp
    · obtain rfl : p₁ = p := by simpa [← hq, hp] using hm.proc.symm
      exact ⟨{ p₁ with stage := t }, by simp [hm.procs, hq], rfl, hm.rank.le⟩
  · exact ⟨p, by rw [step_other hs hq, hp], rfl, le_rfl⟩

/-- A step that takes a file is the removal of a stale socket or a clean-up. -/
theorem step_takes {f : File} (hs : step w e = some (w', d)) (hf : w.files path = some f) :
    w'.files path = some f ∨ ∃ p t, Moves w w' e.pid p t d ∧ ∃ s, path = p.args.path s ∧
      (p.stage = .unlinkStale s ∨ (p.stage = .unlink s ∧ d = .cleanedUp path f)) := by
  rcases step_cases hs with ⟨pid, args, -, -, rfl, -⟩ | ⟨p, t, hm⟩
  · exact .inl hf
  · have hfiles := hm.files
    cases hfiles with
    | no hfiles => exact .inl (by rw [hfiles, hf])
    | makes s _ _ hnone hfiles | binds s _ _ hnone hfiles =>
      rw [hfiles, Host.put_files]
      split <;> rename_i hpath
      · simp [← hpath, hf] at hnone
      · exact .inl hf
    | stale s g hat _ _ hfiles =>
      rw [hfiles, Host.put_files]
      split <;> rename_i hpath
      · exact .inr ⟨p, t, hm, s, hpath, .inl hat⟩
      · exact .inl hf
    | cleans s g hat _ hg hfiles =>
      rw [hfiles, Host.put_files]
      split <;> rename_i hpath
      · subst hpath
        obtain rfl : g = f := by simpa [hg] using hf
        exact .inr ⟨p, t, hm, s, rfl, .inr ⟨hat, rfl⟩⟩
      · exact .inl hf

/-- A path a running relay has bound, and that is free, stays free. -/
theorem step_free (hi : Inv w) (hs : step w e = some (w', d)) (hp : w.procs pid = some p) (hb : p.stage.bound s)
    (hfree : w.files (p.args.path s) = none) : w'.files (p.args.path s) = none := by
  rcases step_cases hs with ⟨pid, args, -, -, rfl, -⟩ | ⟨p', t, hm⟩
  · exact hfree
  · rcases hm.files_at (p.args.path s) with h | ⟨h, -⟩ | ⟨s', h, -⟩ | ⟨s', hat, h, -⟩
    · rw [h, hfree]
    · exact h
    · exact absurd h (hi.plain hp s _)
    · -- only the relay itself could bind it, with its other listener
      obtain rfl : pid = e.pid := (hi.locked hp hb.locked).unique (h ▸ hi.binding hm.proc hat)
      obtain rfl : p = p' := by simpa [hp] using hm.proc
      have hapart : p.args.path .client ≠ p.args.path .gossip := hi.apart hp (by simp [hat]) (by simp [hat])
      cases s <;> cases s'
      · simp [hat, Stage.bound, Stage.rank] at hb
      · exact absurd h hapart
      · exact absurd h.symm hapart
      · simp [hat, Stage.bound, Stage.rank] at hb

/-- Between two moments at which a relay has its path bound,
the socket stays, or another process has unlinked it in its `finally` clause. -/
theorem socket_taken_by_cleanup {w₀ : Host} {h h' : List (Event × Did)} {p' : Proc} (hf : Fresh w₀)
    (hr : Run step Plain w₀ h w) (hp : w.procs pid = some p) (hb : p.stage.bound s)
    (hfile : w.files (p.args.path s) = some (.socket (some pid))) (hr' : Run step Plain w h' w')
    (hp' : w'.procs pid = some p') (hb' : p'.stage.bound s) :
    w'.files (p.args.path s) = some (.socket (some pid)) ∨
      ∃ e, (e, .cleanedUp (p.args.path s) (.socket (some pid))) ∈ h' ∧ e.pid ≠ pid := by
  have hkept : Inv w' ∧ ∃ p₁, w'.procs pid = some p₁ ∧ p₁.args = p.args ∧ p.stage.rank ≤ p₁.stage.rank ∧
      (p₁.stage.bound s → w'.files (p.args.path s) = some (.socket (some pid)) ∨
        ∃ e, (e, .cleanedUp (p.args.path s) (.socket (some pid))) ∈ h' ∧ e.pid ≠ pid) := by
    refine hr'.inv_hist (fun h' w' => Inv w' ∧ ∃ p₁, w'.procs pid = some p₁ ∧ p₁.args = p.args ∧
      p.stage.rank ≤ p₁.stage.rank ∧ (p₁.stage.bound s → w'.files (p.args.path s) = some (.socket (some pid)) ∨
        ∃ e, (e, .cleanedUp (p.args.path s) (.socket (some pid))) ∈ h' ∧ e.pid ≠ pid))
      ⟨run_inv hf hr, p, hp, rfl, le_rfl, fun _ => .inl hfile⟩ ?_
    rintro h' v e v' d ⟨hi, p₁, hp₁, hargs, hle, hold⟩ hok hs
    obtain ⟨p₂, hp₂, hargs₂, hle₂⟩ := step_proc hs hp₁
    refine ⟨step_inv hi hok hs, p₂, hp₂, hargs₂.trans hargs, hle.trans hle₂, fun hb₂ => ?_⟩
    have hb₁ : p₁.stage.bound s := hb₂.of_le hle₂ (hb.1.trans_le hle)
    rcases hold hb₁ with hfile | ⟨e', he', hne⟩
    · rcases step_takes hs hfile with h | ⟨p₃, t, hm, s', hpath, hat | ⟨hat, rfl⟩⟩
      · exact .inl h
      · have hl : p₃.stage.locked s' := by cases s' <;> simp [hat, Stage.locked, Stage.rank, Side.index]
        obtain rfl : pid = e.pid := (hi.locked hp₁ hb₁.locked).unique (by rw [hargs, hpath]; exact hi.locked hm.proc hl)
        obtain rfl : p₁ = p₃ := by simpa [hp₁] using hm.proc
        cases s <;> cases s' <;> simp [hat, Stage.bound, Stage.rank, Side.index] at hb₁
      · refine .inr ⟨e, by simp, ?_⟩
        rintro rfl
        obtain rfl : p₁ = p₃ := by simpa [hp₁] using hm.proc
        cases s <;> cases s' <;> simp [hat, Stage.bound, Stage.rank, Side.index] at hb₁
    · exact .inr ⟨e', by simp [he'], hne⟩
  obtain ⟨-, p₁, hp₁, -, -, h⟩ := hkept
  obtain rfl : p₁ = p' := by simpa [hp'] using hp₁.symm
  exact h hb'

theorem socket_taken_by_cleanup_sample :
    ∃ w' h', Run step Plain (sampleHost sampleRefused) h' w' ∧ w'.procs 0 = some ⟨sampleArgs, .serving⟩ ∧
      (w'.files (lit "a") = some (.socket (some 0)) ∨
        ∃ e, (e, .cleanedUp (lit "a") (.socket (some 0))) ∈ h' ∧ e.pid ≠ 0) := by
  obtain ⟨h, hr⟩ := run_sampleHost sampleRefused (by decide)
  have hp : (sampleHost sampleRefused).procs 0 = some ⟨sampleArgs, .serving⟩ := by decide
  have hb : Stage.serving.bound .client := by decide
  obtain ⟨h', w', hr', hp'⟩ := exists_run step plain (fun w _ => w.procs 0 = some ⟨sampleArgs, .serving⟩)
    (sampleHost sampleRefused) (List.replicate 4 (.call 1)) (by decide)
  have hrun : Run step Plain (sampleHost sampleRefused) h' w' := hr'.mono fun _ _ => plain_sound
  have hp' : w'.procs 0 = some ⟨sampleArgs, .serving⟩ := of_decide_eq_true hp'
  exact ⟨w', h', hrun, hp', socket_taken_by_cleanup fresh_bare hr hp hb (by decide) hrun hp' hb⟩

/-- The places of a start that finds the lock of a path taken, from `flock` on: it has `gone` past the unlink of that
path, with whichever side, by the time it returns. -/
inductive Refused (gone : Prop) (s : Side) : Stage → Prop
  | flock (i) : Refused gone s (.flock s i)
  | stop : Refused gone s .stop
  | unlinkClient : Refused gone s (.unlink .client)
  | unlinkGossip (h : s = .client → gone) : Refused gone s (.unlink .gossip)
  | return (h : gone) : Refused gone s .return
  | exited (h : gone) : Refused gone s .exited

theorem Refused.mono {gone gone' : Prop} (h : Refused gone s t) (hg : gone → gone') : Refused gone' s t := by
  cases h with
  | flock i => exact .flock i
  | stop => exact .stop
  | unlinkClient => exact .unlinkClient
  | unlinkGossip h => exact .unlinkGossip (hg ∘ h)
  | «return» h => exact .return (hg h)
  | exited h => exact .exited (hg h)

theorem unlink_next (hat : p.stage = .unlink s) (hc : call w q p = some (w', d)) :
    w'.procs q = some { p with stage := afterUnlink s } := by
  simp only [call, hat] at hc
  split at hc <;> cases hc <;> simp

/-- The unlink of a path that a running relay has bound leaves nothing there. -/
theorem unlink_frees (hw : w.files path = none ∨ w.files path = some (.socket (some pid))) (hat : p.stage = .unlink s)
    (hpath : p.args.path s = path) (hc : call w q p = some (w', d)) : w'.files path = none := by
  subst hpath
  rcases hw with h | h <;> simp only [call, hat, h] at hc <;> cases hc
  · exact h
  · simp

/-- A refused start goes on to its end by the calls it makes. -/
theorem refused_call {p' : Proc} {s' : Side} (hi : Inv w) (hp : w.procs pid = some p) (hb : p.stage.bound s)
    (hq : w.procs q = some p') (hpath : p'.args.path s' = p.args.path s)
    (hr : Refused (w.files (p.args.path s) = none) s' p'.stage) (hs : step w (.call q) = some (w', d)) :
    ∃ t, w'.procs q = some { p' with stage := t } ∧ Refused (w'.files (p.args.path s) = none) s' t := by
  have hc : call w q p' = some (w', d) := by simpa [step, hq] using hs
  have hbound := hi.bound hp hb
  generalize hat : p'.stage = t at hr
  cases hr with
  | flock i =>
    -- the inode it has opened is the one the running relay has locked
    obtain ⟨j, hfile, hlock⟩ := hi.locked hp hb.locked
    have hopen := hi.opened hq hat
    rw [hpath, hfile] at hopen
    cases hopen
    simp only [call, hat, hlock] at hc
    cases hc
    exact ⟨_, by simp, .stop⟩
  | stop =>
    simp only [call, hat] at hc
    cases hc
    exact ⟨_, by simp, .unlinkClient⟩
  | unlinkClient =>
    refine ⟨_, unlink_next hat hc, .unlinkGossip ?_⟩
    rintro rfl
    exact unlink_frees hbound hat hpath hc
  | unlinkGossip h =>
    refine ⟨_, unlink_next hat hc, .return ?_⟩
    cases s' with
    | client => exact step_free hi hs hp hb (h rfl)
    | gossip => exact unlink_frees hbound hat hpath hc
  | «return» h =>
    simp only [call, hat] at hc
    cases hc
    exact ⟨.exited, by simp, .exited h⟩
  | exited => simp [call, hat] at hc

/-- Plain, and no end or failure that comes to process `q` from outside. -/
def Undisturbed (q : Pid) (w : Host) (e : Event) : Prop := Plain w e ∧ e ≠ .kill q ∧ e ≠ .fail q

/-- Where a start has come to the lock of a path
that a running relay has bound, and has ended without being killed and without a call of its own failing, nothing is
left at the path, while the relay runs on with the lock. -/
theorem refused_start_unlinks {w₀ : Host} {h h' : List (Event × Did)} {p' p₁ p₁' : Proc} {s' : Side} {i : Nat}
    (hf : Fresh w₀) (hr : Run step Plain w₀ h w) (hp : w.procs pid = some p) (hb : p.stage.bound s)
    (hq : w.procs q = some p') (hat : p'.stage = .flock s' i) (hpath : p'.args.path s' = p.args.path s)
    (hr' : Run step (Undisturbed q) w h' w') (hp₁ : w'.procs pid = some p₁) (hb₁ : p₁.stage.bound s)
    (hq₁ : w'.procs q = some p₁') (hend : p₁'.stage = .exited) :
    w'.files (p.args.path s) = none ∧ Holds w' pid (p.args.path s) := by
  have hkept : Inv w' ∧ ∃ a b, w'.procs pid = some a ∧ w'.procs q = some b ∧ a.args = p.args ∧ b.args = p'.args ∧
      p.stage.rank ≤ a.stage.rank ∧ (a.stage.bound s → Refused (w'.files (p.args.path s) = none) s' b.stage) := by
    refine hr'.inv (fun w' => Inv w' ∧ ∃ a b, w'.procs pid = some a ∧ w'.procs q = some b ∧ a.args = p.args ∧
      b.args = p'.args ∧ p.stage.rank ≤ a.stage.rank ∧
        (a.stage.bound s → Refused (w'.files (p.args.path s) = none) s' b.stage))
      ⟨run_inv hf hr, p, p', hp, hq, rfl, rfl, le_rfl, fun _ => hat ▸ .flock i⟩ ?_
    rintro v e v' d ⟨hi, a, b, ha, hb', hargs, hargs', hle, hold⟩ ⟨hok, hkill, hfail⟩ hs
    obtain ⟨a₂, ha₂, hargs₂, hle₂⟩ := step_proc hs ha
    obtain ⟨b₂, hb₂, hargs₂', -⟩ := step_proc hs hb'
    refine ⟨step_inv hi hok hs, a₂, b₂, ha₂, hb₂, hargs₂.trans hargs, hargs₂'.trans hargs', hle.trans hle₂, fun hbound => ?_⟩
    have hba : a.stage.bound s := hbound.of_le hle₂ (hb.1.trans_le hle)
    rw [← hargs] at hold ⊢
    by_cases he : q = e.pid
    · obtain rfl : e = .call q := by
        cases e with
        | start r =>
          obtain rfl : q = r := he
          simp [step, hb'] at hs
        | call => rw [he]; rfl
        | fail => exact absurd (by rw [he]; rfl) hfail
        | kill => exact absurd (by rw [he]; rfl) hkill
      obtain ⟨t, ht, hr⟩ := refused_call hi ha hba hb' (by rw [hargs', hargs, hpath]) (hold hba) hs
      obtain rfl : b₂ = { b with stage := t } := by simpa [hb₂] using ht
      exact hr
    · obtain rfl : b₂ = b := by simpa [step_other hs he, hb'] using hb₂.symm
      exact (hold hba).mono (step_free hi hs ha hba)
  obtain ⟨hi, a, b, ha, hb', hargs, -, -, href⟩ := hkept
  obtain rfl : a = p₁ := by simpa [ha] using hp₁
  obtain rfl : b = p₁' := by simpa [hb'] using hq₁
  refine ⟨?_, hargs ▸ hi.locked ha hb₁.locked⟩
  cases hend ▸ href hb₁ with | exited h => exact h

theorem refused_start_unlinks_sample :
    ∃ w' h', Run step (Undisturbed 1) (sampleHost sampleRefused) h' w' ∧ w'.procs 0 = some ⟨sampleArgs, .serving⟩ ∧
      w'.files (lit "a") = none ∧ Holds w' 0 (lit "a") := by
  obtain ⟨h, hr⟩ := run_sampleHost sampleRefused (by decide)
  have hp : (sampleHost sampleRefused).procs 0 = some ⟨sampleArgs, .serving⟩ := by decide
  have hq : (sampleHost sampleRefused).procs 1 = some ⟨sampleArgs, .flock .client 0⟩ := by decide
  have hb : Stage.serving.bound .client := by decide
  obtain ⟨h', w', hr', hend⟩ := exists_run step (fun w e => plain w e && e ≠ .kill 1 && e ≠ .fail 1)
    (fun w _ => w.procs 0 = some ⟨sampleArgs, .serving⟩ ∧ w.procs 1 = some ⟨sampleArgs, .exited⟩)
    (sampleHost sampleRefused) (List.replicate 5 (.call 1)) (by decide)
  have hrun : Run step (Undisturbed 1) (sampleHost sampleRefused) h' w' := hr'.mono fun w e h => by
    simp only [Bool.and_eq_true, decide_eq_true_eq] at h
    exact ⟨plain_sound h.1.1, h.1.2, h.2⟩
  obtain ⟨hp', hq'⟩ := of_decide_eq_true hend
  exact ⟨w', h', hrun, hp', refused_start_unlinks fresh_bare hr hp hb hq rfl rfl hrun hp' hb hq' rfl⟩

end

end AetherNode.Startup
