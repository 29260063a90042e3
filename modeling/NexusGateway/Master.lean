import NexusGateway.WorkerEvents
import NexusGateway.Lib.Runs
import Mathlib.Logic.Function.Basic

/- The master and its workers (`master.c`, and `nexus_worker_run` of `worker.c`).

   The processes share two configuration slots and three atomic words. The master is
   its program counter and what it knows; each step is one of its calls or one access
   to the shared memory. A worker reads the generation once when it starts, and then
   reads `shutting_down` and the generation, one after the other, for every connection
   it is to accept and after every `epoll_wait`. Any process may take the next step
   (`System.step`), and SIGHUP may arrive before any.

   What the calls return comes with the step: the configuration that was loaded, what
   `fork` and `waitpid` give. A killed process takes no more steps; until it is waited for
   its number is in use. -/
namespace NexusGateway
open CString

/-! ## Shared memory -/

/-- `CONFIG_MAX`. -/
def configMax : Nat := 64 * 1024

/-- `config_shadow_t`. -/
structure ConfigShadow where
  version : UInt64
  totalSize : UInt32
  data : Bytes
  deriving DecidableEq, Repr

/-- The shared memory: the slots and the atomic words. -/
structure Shared where
  shadow : Fin 2 → ConfigShadow
  activeSlot : Fin 2
  shuttingDown : Int32
  drainGeneration : Int32

/-- One line of a serialised configuration. -/
def configText (key value : Bytes) : Bytes := key ++ (ascii "=" ++ (cstr value ++ [lf]))

/-- `serialize_config`: the data of the slot and the size. The last byte of the slot is
    never written to. -/
def serializeConfig (cfg : Config) (data : Bytes) : Bytes × UInt32 :=
  let listen := (configGet cfg (ascii "server") (ascii "listen")).getD (ascii "0.0.0.0:8080")
  let logLevel := (configGet cfg (ascii "server") (ascii "log_level")).getD (ascii "info")
  let workerNum := (configGet cfg (ascii "server") (ascii "worker_num")).getD (ascii "auto")
  let w := (data.take (configMax - 1), 0)
  let w := emit w (configText (ascii "listen") listen)
  let w := emit w (configText (ascii "log_dir") (ascii "logs"))
  let w := emit w (configText (ascii "log_level") logLevel)
  let w := emit w (configText (ascii "worker_num") workerNum)
  let w := match configGet cfg (ascii "upstream.api") (ascii "server") with
    | none => w
    | some server => emit w (configText (ascii "upstream.api.server") server)
  (w.1 ++ data.drop (configMax - 1), w.2.toUInt32)

/-- `reload_config`: the slot that is not in use is written, counted and made the active one. -/
def reloadConfig (sh : Shared) (cfg : Config) : Shared :=
  let inactive := 1 - sh.activeSlot
  let old := sh.shadow inactive
  let text := serializeConfig cfg old.data
  { sh with
    shadow := Function.update sh.shadow inactive
      { version := old.version + 1, totalSize := text.2, data := text.1 }
    activeSlot := inactive }

/-- `setup_shared_memory_master`, and the first configuration in slot 0. -/
def sharedInit (cfg : Config) : Shared :=
  let zero : ConfigShadow := ⟨0, 0, List.replicate configMax 0⟩
  let text := serializeConfig cfg zero.data
  { shadow := Function.update (fun _ => zero) 0 { version := 1, totalSize := text.2, data := text.1 }
    activeSlot := 0
    shuttingDown := 0
    drainGeneration := 0 }

/-! ## A worker's process -/

/-- Where a worker is: before it has read its generation, in `nexus_epoll_wait`, between
    the two loads for a connection it is to accept, between the two loads after
    `nexus_epoll_wait`, or gone. -/
inductive WorkerPc where
  | starting
  | waiting (l : EventLoop)
  | accepting (l : EventLoop) (shuttingDown : Int32)
  | checking (l : EventLoop) (shuttingDown : Int32)
  | left

/-- The event loop of a worker that has one. -/
def WorkerPc.loop : WorkerPc → Option EventLoop
  | .starting => none
  | .waiting l => some l
  | .accepting l _ => some l
  | .checking l _ => some l
  | .left => none

/-- A worker's process: the configuration it was forked with, and how often the
    generation had been incremented by then. -/
structure WorkerProc where
  cfg : Config
  pc : WorkerPc
  bornAt : Nat

inductive WorkerAct where
  | enter (w : Worker) (listenFd : Int)
  | event (e : Event)
  | health (node : Nat) (healthy : Bool)
  | loadShutting
  | accept (e : Event)
  | check
  | decide
  | die

/-- What a worker does because it is being drained. -/
inductive Notice where
  | refused
  | drainMode
  | leftLoop
  deriving DecidableEq, Repr

/-- `should_drain`. -/
def EventLoop.shouldDrain (l : EventLoop) (shuttingDown generation : Int32) : Bool :=
  shuttingDown != 0 && decide (generation > l.myGeneration)

/-- A step of a worker, and what it does because it is being drained. -/
def WorkerPc.step (sh : Shared) (cfg : Config) :
    WorkerPc → WorkerAct → Option (WorkerPc × List Notice)
  -- the set-up ends with the load of the generation
  | .starting, .enter w listenFd =>
    if w.activeConns = 0 ∧ w.cfg = cfg then
      some (.waiting ⟨w, poolInit, listenFd, sh.drainGeneration⟩, [])
    else none
  | .waiting l, .event e => if e.fd = l.listenFd then none else some (.waiting (onEvent l e).1, [])
  -- the health checker's thread does not wait for the loop
  | .waiting l, .health node healthy => some (.waiting (l.step (.health node healthy)), [])
  | .accepting l shuttingDown, .health node healthy =>
    some (.accepting (l.step (.health node healthy)) shuttingDown, [])
  | .checking l shuttingDown, .health node healthy =>
    some (.checking (l.step (.health node healthy)) shuttingDown, [])
  | .waiting l, .loadShutting => some (.accepting l sh.shuttingDown, [])
  -- the generation is loaded only if the first word was set
  | .accepting l shuttingDown, .accept e =>
    let k := e.calls.accept
    if e.fd = l.listenFd ∧ k.shuttingDown = shuttingDown ∧
        (shuttingDown = 0 ∨ k.drainGeneration = sh.drainGeneration) then
      some (.waiting (onEvent l e).1, if l.refuses k then [.refused] else [])
    else none
  | .waiting l, .check => some (.checking l sh.shuttingDown, [])
  | .checking l shuttingDown, .decide =>
    if l.shouldDrain shuttingDown sh.drainGeneration then
      if l.worker.activeConns = 0 then some (.left, [.drainMode, .leftLoop])
      else some (.waiting l, [.drainMode])
    else some (.waiting l, [])
  | .left, .die => none
  | _, .die => some (.left, [])
  | _, _ => none

/-! ## The master -/

/-- Where the master is in `nexus_master_run`. -/
inductive MasterPc where
  | spawning (i : Nat)
  | top
  | clearing
  | loading
  | reloading
  | incrementing
  | setting
  | respawning (i : Nat)
  | draining (i alive : Nat)
  | killing (i : Nat)
  | collecting (i : Nat)
  | finishing
  | reaping (i : Nat)
  | replacing (i : Nat)
  deriving DecidableEq, Repr

/-- What the master knows. -/
structure Master where
  pc : MasterPc
  sighup : Bool
  cfg : Config
  newCfg : Config
  workerPids : List Int
  oldPids : List Int
  drainDeadline : Nat
  leaked : Nat

/-- `g_worker_count`, `online` being the number of processors. -/
def workerCount (cfg : Config) (online : Int32) : Nat :=
  let n := match configGet cfg (ascii "server") (ascii "worker_num") with
    | none => max online 1
    | some wn => if strEq wn (ascii "auto") then max online 1 else atoi wn
  let n := if n < 1 then 1 else n
  let n := if n > 64 then 64 else n
  n.toInt.toNat

/-- What the master's calls return. -/
structure MasterCalls where
  loaded : Option Config
  forked : Int
  waited : Int

/-- All processes: the children that were neither waited for nor killed, and the numbers of
    those that were killed and not yet waited for. `increments` counts the master's increments
    of the generation. -/
structure System where
  shared : Shared
  master : Master
  procs : Int → Option WorkerProc
  killed : List Int
  increments : Nat

/-- `fork`: none, if it cannot return this. A child has a number that is not in use. -/
def System.fork (s : System) (cfg : Config) (r : Int) : Option System :=
  if r = -1 then some s
  else if 0 < r ∧ (s.procs r).isNone ∧ r ∉ s.killed then
    some { s with procs := Function.update s.procs r (some ⟨cfg, .starting, s.increments⟩) }
  else none

/-- The child with this number has exited and was not waited for yet. -/
def System.exited (s : System) (pid : Int) : Bool :=
  match s.procs pid with
  | some ⟨_, .left, _⟩ => true
  | some _ => false
  | none => decide (pid ∈ s.killed)

/-- A child is waited for. -/
def System.reap (s : System) (pid : Int) : System :=
  { s with procs := Function.update s.procs pid none, killed := s.killed.filter (· ≠ pid) }

/-- `waitpid(pid, .., WNOHANG)`: none, if it cannot return this. -/
def System.waitpid (s : System) (pid r : Int) : Option System :=
  if r = 0 ∨ r = -1 then some s
  else if (pid = r ∨ pid = -1 ∨ pid = 0) ∧ s.exited r then some (s.reap r)
  else none

/-- `kill(pid, SIGKILL)`. -/
def System.kill (s : System) (pid : Int) : System :=
  { s with
    procs := Function.update s.procs pid none
    killed := if (s.procs pid).isSome then pid :: s.killed else s.killed }

/-- `waitpid(pid, .., 0)` of a child that was killed: none, if it cannot return this. It fails
    when there is no such child, and when SIGHUP interrupts it: `sa_hup` has no `SA_RESTART`,
    and its handler has set `g_sighup` by then. -/
def System.waitKilled (s : System) (pid r : Int) : Option System :=
  if r = pid ∧ s.exited pid = true then some (s.reap pid)
  else if r = -1 ∧ (s.master.sighup = true ∨ s.exited pid = false) then some s
  else none

/-- The system with another master. -/
def System.withMaster (s : System) (m : Master) : System := { s with master := m }

/-- A step of the master. -/
def System.masterStep (s : System) (k : MasterCalls) : Option System :=
  let m := s.master
  match m.pc with
  | .spawning i =>
    if i < m.workerPids.length then
      (s.fork m.cfg k.forked).map fun s =>
        s.withMaster { m with pc := .spawning (i + 1), workerPids := m.workerPids.set i k.forked }
    else some (s.withMaster { m with pc := .top })
  | .top => some (s.withMaster { m with pc := if m.sighup then .clearing else .reaping 0 })
  | .clearing => some (s.withMaster { m with pc := .loading, sighup := false })
  | .loading =>
    match k.loaded with
    | none => some (s.withMaster { m with pc := .top })
    | some cfg => some (s.withMaster { m with pc := .reloading, newCfg := cfg })
  | .reloading =>
    some ({ s with shared := reloadConfig s.shared m.newCfg }.withMaster { m with pc := .incrementing })
  | .incrementing =>
    some ({ s with
      shared := { s.shared with drainGeneration := s.shared.drainGeneration + 1 }
      increments := s.increments + 1 }.withMaster { m with pc := .setting })
  -- the table of the workers is handed to the drain, and a new one begun
  | .setting =>
    some ({ s with shared := { s.shared with shuttingDown := 1 } }.withMaster
      { m with
        pc := .respawning 0
        oldPids := m.workerPids
        workerPids := List.replicate m.workerPids.length 0
        drainDeadline := 30
        leaked := 0 })
  | .respawning i =>
    if i < m.workerPids.length then
      (s.fork m.newCfg k.forked).map fun s =>
        s.withMaster { m with pc := .respawning (i + 1), workerPids := m.workerPids.set i k.forked }
    else some (s.withMaster { m with pc := .draining 0 0 })
  | .draining i alive =>
    match m.oldPids[i]? with
    | some pid =>
      if pid ≤ 0 then some (s.withMaster { m with pc := .draining (i + 1) alive })
      else
        (s.waitpid pid k.waited).map fun s =>
          if k.waited = pid then
            s.withMaster { m with pc := .draining (i + 1) alive, oldPids := m.oldPids.set i 0 }
          else s.withMaster { m with pc := .draining (i + 1) (alive + 1) }
    -- a whole scan: done, or once more in a second, thirty times at most
    | none =>
      if alive = 0 ∨ m.drainDeadline ≤ 1 then some (s.withMaster { m with pc := .killing 0 })
      else
        some (s.withMaster { m with pc := .draining 0 0, drainDeadline := m.drainDeadline - 1 })
  | .killing i =>
    match m.oldPids[i]? with
    | some pid =>
      if pid > 0 then some ((s.kill pid).withMaster { m with pc := .collecting i })
      else some (s.withMaster { m with pc := .killing (i + 1) })
    | none => some (s.withMaster { m with pc := .finishing, oldPids := [] })
  -- what the wait returns is not looked at
  | .collecting i =>
    (s.waitKilled (m.oldPids[i]?.getD 0) k.waited).map fun s =>
      s.withMaster { m with pc := .killing (i + 1), leaked := m.leaked + 1 }
  | .finishing =>
    some ({ s with shared := { s.shared with shuttingDown := 0 } }.withMaster
      { m with pc := .reaping 0 })
  | .reaping i =>
    match m.workerPids[i]? with
    | some pid =>
      (s.waitpid pid k.waited).map fun s =>
        s.withMaster { m with pc := if k.waited = pid then .replacing i else .reaping (i + 1) }
    | none => some (s.withMaster { m with pc := .top })
  -- the replacement gets the configuration the master was started with
  | .replacing i =>
    (s.fork m.cfg k.forked).map fun s =>
      s.withMaster { m with pc := .reaping (i + 1), workerPids := m.workerPids.set i k.forked }

/-! ## All processes -/

inductive SystemStep where
  | sighup
  | master (k : MasterCalls)
  | worker (pid : Int) (a : WorkerAct)

/-- A worker's step, with what it does because it is being drained. -/
def System.workerStep (s : System) (pid : Int) (a : WorkerAct) : Option (System × List Notice) :=
  (s.procs pid).bind fun p =>
    (p.pc.step s.shared p.cfg a).map fun r =>
      ({ s with procs := Function.update s.procs pid (some { p with pc := r.1 }) }, r.2)

/-- The next step, of any process. -/
def System.step (s : System) : SystemStep → Option System
  | .sighup => some (s.withMaster { s.master with sighup := true })
  | .master k => s.masterStep k
  | .worker pid a => (s.workerStep pid a).map Prod.fst

def System.run (s : System) (steps : List SystemStep) : Option System := Runs.run System.step s steps

/-- `nexus_master_run` in front of its first fork. -/
def systemInit (cfg : Config) (online : Int32) : System where
  shared := sharedInit cfg
  master :=
    { pc := .spawning 0
      sighup := false
      cfg := cfg
      newCfg := cfg
      workerPids := List.replicate (workerCount cfg online) 0
      oldPids := []
      drainDeadline := 0
      leaked := 0 }
  procs := fun _ => none
  killed := []
  increments := 0

end NexusGateway
