/-
The user-log manager (internal/userlog/manager.go).

Producers hand events to a bounded buffer for each log file; a fixed pool of workers writes them. A file with events and
no owner is put on the ready queue, a worker that takes it from there owns it until it finds its buffer empty. File
states are reached through pointers: a producer keeps the one it has looked up, also when the reaper or an eviction
takes it out of the map.

One step is one atomic operation of a producer, a worker or `Close`: a channel operation, a critical section of one
lock, a write. The reaper's pass is a step for each file it looks at, at any time. `Close` holds the manager's lock
while it walks the files, and a file's lock while it puts the file on the ready queue; every other critical section is
one step. When a timer fires, in which order a map is walked and which file an eviction comes across first is a choice
of the environment. Warnings are left out.

- `producerStep`, `workerStep`, `closerStep`, `reap`: the goroutines.
- `step_move`: everything a step can do.
-/
import AccessPoint.Core.KeyMap
import AccessPoint.Core.Runs

namespace AccessPoint.Userlog

/-- `Config`; the time a producer waits before it gives up is left to the environment -/
structure Config where
  workers : ℤ
  queueDepth : ℤ
  /-- in nanoseconds -/
  idleTimeout : ℤ
  maxFiles : ℤ
deriving DecidableEq, Repr

def Config.withDefaults (c : Config) : Config where
  workers := if c.workers ≤ 0 then 32 else c.workers
  queueDepth := if c.queueDepth ≤ 0 then 1024 else c.queueDepth
  idleTimeout := if c.idleTimeout ≤ 0 then 60 * 10 ^ 9 else c.idleTimeout
  maxFiles := if c.maxFiles ≤ 0 then 8192 else c.maxFiles

structure ProcKey where
  cluster : ℤ
  proc : ℤ
  subproc : ℤ
deriving DecidableEq, Repr

/-- an `hlog.Writer` -/
structure Writer where
  path : String
  key : ProcKey
deriving DecidableEq, Repr

/-- the arguments of `enqueue` -/
structure Call (R : Type) where
  path : String
  key : ProcKey
  record : R
  block : Bool
deriving DecidableEq, Repr

/-- `queuedEvent`; `call` is the number of the `enqueue` call it comes from -/
structure QueuedEvent (R : Type) where
  call : ℕ
  key : ProcKey
  record : R
deriving DecidableEq, Repr

/-- `fileState`; `ch` is the buffer, oldest first -/
structure FileState (R : Type) where
  path : String
  ch : List (QueuedEvent R)
  owned : Bool
  enqueued : Bool
  lastActive : ℤ
  writers : KeyMap ProcKey Writer
  dropped : ℕ

/-- how far an `enqueue` call has come; `f` points to its file state -/
inductive Producer (R : Type) where
  | calling (c : Call R)
  /-- before the send -/
  | sending (c : Call R) (f : ℕ)
  /-- the send is done, the flags are not looked at yet -/
  | sent (f : ℕ)
  /-- it has set `enqueued` and will put the file on the ready queue -/
  | signalling (f : ℕ)
  /-- it found the ready queue full -/
  | overflowed (f : ℕ)
  | returned
deriving DecidableEq, Repr

inductive Worker (R : Type) where
  /-- at its select -/
  | idle
  /-- it has taken the file from the ready queue and not marked it yet -/
  | popped (f : ℕ)
  /-- at the select of `drainFile` -/
  | draining (f : ℕ)
  /-- in `WriteEvent` -/
  | writing (f : ℕ) (ev : QueuedEvent R)
  /-- it found the buffer empty and will look again under the lock -/
  | emptied (f : ℕ)
  | stopped
deriving DecidableEq, Repr

/-- how far `Close` has come; a second call returns at once -/
inductive Closer where
  | absent
  /-- it walks the files, the manager's lock held -/
  | marking (todo : List ℕ)
  /-- it has set `enqueued` on `f`, whose lock it holds too -/
  | locked (f : ℕ) (todo : List ℕ)
  /-- before a call of `buffered` -/
  | polling
  /-- in `buffered`, the manager's lock held: `n` counted, `todo` to look at -/
  | scanning (n : ℕ) (todo : List ℕ)
  /-- it has counted the buffer of `f` and will look whether it is owned -/
  | looked (n f : ℕ) (todo : List ℕ)
  /-- before `close(m.quit)` -/
  | stopping
  /-- it waits for the workers -/
  | waiting
  | returned
deriving DecidableEq, Repr

/-- it holds the manager's lock -/
def Closer.busy : Closer → Bool
  | .marking _ => true
  | .locked _ _ => true
  | .scanning _ _ => true
  | .looked _ _ _ => true
  | _ => false

/-- it holds the lock of `f` -/
def Closer.locks (f : ℕ) : Closer → Bool
  | .locked f' _ => f' = f
  | _ => false

inductive Obs (R : Type) where
  /-- a send into the buffer of `f` completed -/
  | sent (f : ℕ) (path : String) (ev : QueuedEvent R)
  /-- worker `j`, draining `f`, came back from `WriteEvent` -/
  | wrote (j f : ℕ) (w : Writer) (ev : QueuedEvent R)
  | dropped (call : ℕ)
deriving DecidableEq, Repr

structure Manager (R : Type) where
  cfg : Config
  files : KeyMap String ℕ
  closing : Bool
  ready : List ℕ
  quit : Bool
  dropped : ℕ
  heap : ℕ → FileState R
  /-- the next file state to allocate -/
  next : ℕ
  /-- the number of `enqueue` calls so far -/
  calls : ℕ
  producers : KeyMap ℕ (Producer R)
  workers : KeyMap ℕ (Worker R)
  closer : Closer
  trace : List (Obs R)

/-- what the environment decides in a step -/
structure Choice where
  now : ℤ
  /-- the file an eviction finds idle; it looks at one file after the other while the goroutines go on, so it may find
  none -/
  victim : Option String
  /-- the timer of a blocking send has fired, or it sees the shutdown -/
  giveUp : Bool
  /-- a worker that sees the shutdown stops -/
  leave : Bool
  /-- the order in which a walk over the files comes across them -/
  order : List ℕ
  /-- the context of `Close` is done -/
  expired : Bool
deriving DecidableEq, Repr

inductive Step (R : Type) where
  /-- `enqueue` is called -/
  | call (c : Call R)
  | producer (i : ℕ) (ch : Choice)
  | worker (j : ℕ) (ch : Choice)
  /-- the reaper looks at the file of `path` -/
  | reap (path : String) (now : ℤ)
  /-- `Close` is called, or goes on -/
  | closer (ch : Choice)
deriving DecidableEq, Repr

variable {R : Type}

namespace FileState

def new (path : String) (now : ℤ) : FileState R := ⟨path, [], false, false, now, ∅, 0⟩

/-- neither owned nor queued, and nothing buffered -/
def idle (fs : FileState R) : Bool := !fs.owned && !fs.enqueued && fs.ch.isEmpty

/-- the cached writer of the proc, or a new one -/
def writerFor (fs : FileState R) (key : ProcKey) : Writer := (fs.writers.lookup key).getD ⟨fs.path, key⟩

def push (fs : FileState R) (ev : QueuedEvent R) : FileState R := { fs with ch := fs.ch ++ [ev] }

def setCh (fs : FileState R) (ch : List (QueuedEvent R)) : FileState R := { fs with ch := ch }

def setEnqueued (fs : FileState R) (b : Bool) : FileState R := { fs with enqueued := b }

/-- a worker takes it over -/
def own (fs : FileState R) : FileState R := { fs with enqueued := false, owned := true }

def disown (fs : FileState R) (now : ℤ) : FileState R := { fs with owned := false, lastActive := now }

def cache (fs : FileState R) (key : ProcKey) : FileState R :=
  { fs with writers := fs.writers.insert key (fs.writerFor key) }

def countDrop (fs : FileState R) : FileState R := { fs with dropped := fs.dropped + 1 }

variable (fs : FileState R)

@[simp] theorem own_enqueued : fs.own.enqueued = false := rfl

@[simp] theorem own_owned : fs.own.owned = true := rfl

@[simp] theorem setEnqueued_enqueued (b : Bool) : (fs.setEnqueued b).enqueued = b := rfl

@[simp] theorem setEnqueued_owned (b : Bool) : (fs.setEnqueued b).owned = fs.owned := rfl

@[simp] theorem disown_owned (now : ℤ) : (fs.disown now).owned = false := rfl

theorem idle_iff {fs : FileState R} : fs.idle = true ↔ fs.owned = false ∧ fs.enqueued = false ∧ fs.ch = [] := by
  simp [idle, and_assoc]

end FileState

namespace Manager

/-- `newWithFactory` -/
def new (cfg : Config) : Manager R where
  cfg := cfg.withDefaults
  files := ∅
  closing := false
  ready := []
  quit := false
  dropped := 0
  heap := fun _ => .new "" 0
  next := 0
  calls := 0
  producers := ∅
  workers := (List.range cfg.withDefaults.workers.toNat).foldl (fun ws j => ws.insert j .idle) ∅
  closer := .absent
  trace := []

def setFile (m : Manager R) (f : ℕ) (fs : FileState R) : Manager R := { m with heap := Function.update m.heap f fs }

def setProducer (m : Manager R) (i : ℕ) (p : Producer R) : Manager R := { m with producers := m.producers.insert i p }

def setWorker (m : Manager R) (j : ℕ) (w : Worker R) : Manager R := { m with workers := m.workers.insert j w }

def observe (m : Manager R) (o : Obs R) : Manager R := { m with trace := m.trace ++ [o] }

/-- the file states in the map -/
def tracked (m : Manager R) : List ℕ := m.files.entries.map (·.2)

/-- the ready queue has room -/
def hasRoom (m : Manager R) : Bool := (m.ready.length : ℤ) < m.cfg.maxFiles

/-- the buffer of `f` has room -/
def fits (m : Manager R) (f : ℕ) : Bool := ((m.heap f).ch.length : ℤ) < m.cfg.queueDepth

/-- `drop` of the event of call `i`, whose `enqueue` returns -/
def drop (m : Manager R) (i : ℕ) : Manager R :=
  ({ m with dropped := m.dropped + 1 }.observe (.dropped i)).setProducer i .returned

/-! ## Producers -/

/-- `evictIdleLocked`; none when nothing idle is found -/
def evictIdleLocked (m : Manager R) (victim : Option String) : Option (Manager R) :=
  victim.bind fun p => (m.files.lookup p).bind fun f =>
    if (m.heap f).idle then some { m with files := m.files.erase p } else none

/-- a new file state under `path` -/
def newFile (m : Manager R) (path : String) (now : ℤ) : Manager R :=
  { m.setFile m.next (.new path now) with files := m.files.insert path m.next, next := m.next + 1 }

/-- `fileFor` -/
def fileFor (m : Manager R) (path : String) (ch : Choice) : Option ℕ × Manager R :=
  if m.closing then (none, m)
  else
    match m.files.lookup path with
    | some f => (some f, m)
    | none =>
      if m.cfg.maxFiles ≤ m.files.keys.length then
        match m.evictIdleLocked ch.victim with
        | none => (none, m)
        | some m' => (some m.next, m'.newFile path ch.now)
      else (some m.next, m.newFile path ch.now)

/-- the send of `enqueue` completes -/
def send (m : Manager R) (i : ℕ) (c : Call R) (f : ℕ) : Manager R :=
  let ev : QueuedEvent R := ⟨i, c.key, c.record⟩
  ((m.setFile f ((m.heap f).push ev)).observe (.sent f c.path ev)).setProducer i (.sent f)

/-- the event is dropped before the send -/
def giveUp (m : Manager R) (i f : ℕ) : Manager R :=
  (m.setFile f (m.heap f).countDrop).drop i

def setEnqueued (m : Manager R) (f : ℕ) (b : Bool) : Manager R := m.setFile f ((m.heap f).setEnqueued b)

/-- the next operation of `enqueue` -/
def producerStep (m : Manager R) (i : ℕ) (ch : Choice) : Manager R :=
  match m.producers.lookup i with
  | some (.calling c) =>
    if m.closer.busy then m
    else
      match m.fileFor c.path ch with
      | (none, m') => m'.drop i
      | (some f, m') => m'.setProducer i (.sending c f)
  | some (.sending c f) =>
    if c.block then
      if ch.giveUp then m.giveUp i f else if m.fits f then m.send i c f else m
    else if m.fits f then m.send i c f else m.giveUp i f
  | some (.sent f) =>
    if m.closer.locks f then m
    else if !(m.heap f).owned && !(m.heap f).enqueued then (m.setEnqueued f true).setProducer i (.signalling f)
    else m.setProducer i .returned
  | some (.signalling f) =>
    if m.hasRoom then { m with ready := m.ready ++ [f] }.setProducer i .returned
    else m.setProducer i (.overflowed f)
  | some (.overflowed f) => if m.closer.locks f then m else (m.setEnqueued f false).drop i
  | _ => m

/-! ## Workers and the reaper -/

/-- `write` -/
def write (m : Manager R) (j f : ℕ) (ev : QueuedEvent R) : Manager R :=
  (m.setFile f ((m.heap f).cache ev.key)).observe (.wrote j f ((m.heap f).writerFor ev.key) ev)

/-- the next operation of a worker -/
def workerStep (m : Manager R) (j : ℕ) (ch : Choice) : Manager R :=
  match m.workers.lookup j with
  | some .idle =>
    if m.quit && ch.leave then m.setWorker j .stopped
    else
      match m.ready with
      | f :: rest => { m with ready := rest }.setWorker j (.popped f)
      | [] => m
  | some (.popped f) =>
    if m.closer.locks f then m
    else (m.setFile f (m.heap f).own).setWorker j (.draining f)
  | some (.draining f) =>
    match (m.heap f).ch with
    | ev :: rest => (m.setFile f ((m.heap f).setCh rest)).setWorker j (.writing f ev)
    | [] => m.setWorker j (.emptied f)
  | some (.writing f ev) => (m.write j f ev).setWorker j (.draining f)
  | some (.emptied f) =>
    if m.closer.locks f then m
    else if (m.heap f).ch.isEmpty then
      (m.setFile f ((m.heap f).disown ch.now)).setWorker j .idle
    else m.setWorker j (.draining f)
  | _ => m

/-- the reaper looks at one file -/
def reap (m : Manager R) (path : String) (now : ℤ) : Manager R :=
  if m.closer.busy then m
  else
    match m.files.lookup path with
    | some f =>
      if (m.heap f).idle && decide (m.cfg.idleTimeout ≤ now - (m.heap f).lastActive) then
        { m with files := m.files.erase path }
      else m
    | none => m

/-! ## Close -/

/-- every worker has returned -/
def stopped (m : Manager R) : Bool := m.workers.entries.all fun e =>
  match e.2 with
  | .stopped => true
  | _ => false

/-- the next operation of `Close` -/
def closerStep (m : Manager R) (ch : Choice) : Manager R :=
  match m.closer with
  | .absent => if ch.order.Perm m.tracked then { m with closing := true, closer := .marking ch.order } else m
  | .marking [] => { m with closer := .polling }
  | .marking (f :: todo) =>
    if !(m.heap f).owned && !(m.heap f).enqueued && !(m.heap f).ch.isEmpty then
      { m.setEnqueued f true with closer := .locked f todo }
    else { m with closer := .marking todo }
  | .locked f todo =>
    if m.hasRoom then { m with ready := m.ready ++ [f], closer := .marking todo }
    else { m.setEnqueued f false with closer := .marking todo }
  | .polling => if ch.order.Perm m.tracked then { m with closer := .scanning 0 ch.order } else m
  | .scanning n (f :: todo) => { m with closer := .looked (n + (m.heap f).ch.length) f todo }
  | .looked n f todo => { m with closer := .scanning (if (m.heap f).owned then n + 1 else n) todo }
  | .scanning 0 [] => { m with closer := .stopping }
  | .scanning _ [] => { m with closer := if ch.expired then .stopping else .polling }
  | .stopping => { m with quit := true, closer := .waiting }
  | .waiting => if m.stopped || ch.expired then { m with closer := .returned } else m
  | .returned => m

def step (m : Manager R) : Step R → Manager R
  | .call c => { m with calls := m.calls + 1 }.setProducer m.calls (.calling c)
  | .producer i ch => m.producerStep i ch
  | .worker j ch => m.workerStep j ch
  | .reap path now => m.reap path now
  | .closer ch => m.closerStep ch

def run (m : Manager R) (steps : List (Step R)) : Manager R := steps.foldl step m

/-! ## What one step does -/

/-- the look-up makes a new file state, at the cap in the place of an idle one -/
inductive MakesRoom (m : Manager R) (victim : Option String) : Manager R → Prop where
  | below (h : (m.files.keys.length : ℤ) < m.cfg.maxFiles) : MakesRoom m victim m
  | evict (p : String) (f : ℕ) (hl : m.files.lookup p = some f) (hidle : (m.heap f).idle = true) (hv : victim = some p)
      (hcap : m.cfg.maxFiles ≤ m.files.keys.length) : MakesRoom m victim { m with files := m.files.erase p }

/-- every way a producer's step changes the manager -/
inductive Produces (m : Manager R) (i : ℕ) (ch : Choice) : Manager R → Prop where
  | refuse (c : Call R) (hp : m.producers.lookup i = some (.calling c)) (hmu : m.closer.busy = false) :
    Produces m i ch (m.drop i)
  | found (c : Call R) (f : ℕ) (hp : m.producers.lookup i = some (.calling c)) (hmu : m.closer.busy = false)
      (hclosing : m.closing = false) (hf : m.files.lookup c.path = some f) :
        Produces m i ch (m.setProducer i (.sending c f))
  | create (c : Call R) (now : ℤ) (m' : Manager R) (hp : m.producers.lookup i = some (.calling c))
      (hmu : m.closer.busy = false) (hclosing : m.closing = false) (hf : m.files.lookup c.path = none)
        (hm : MakesRoom m ch.victim m') :
      Produces m i ch ((m'.newFile c.path now).setProducer i (.sending c m.next))
  | send (c : Call R) (f : ℕ) (hp : m.producers.lookup i = some (.sending c f)) (hfits : m.fits f = true)
      (hgo : (c.block && ch.giveUp) = false) : Produces m i ch (m.send i c f)
  | giveUp (c : Call R) (f : ℕ) (hp : m.producers.lookup i = some (.sending c f)) : Produces m i ch (m.giveUp i f)
  | signal (f : ℕ) (hp : m.producers.lookup i = some (.sent f)) (hmu : m.closer.locks f = false)
      (howned : (m.heap f).owned = false) (henq : (m.heap f).enqueued = false) :
      Produces m i ch ((m.setEnqueued f true).setProducer i (.signalling f))
  | covered (f : ℕ) (hp : m.producers.lookup i = some (.sent f)) (hmu : m.closer.locks f = false)
      (h : (m.heap f).owned = true ∨ (m.heap f).enqueued = true) : Produces m i ch (m.setProducer i .returned)
  | push (f : ℕ) (hp : m.producers.lookup i = some (.signalling f)) (hroom : m.hasRoom = true) :
      Produces m i ch ({ m with ready := m.ready ++ [f] }.setProducer i .returned)
  | overflow (f : ℕ) (hp : m.producers.lookup i = some (.signalling f)) (hroom : m.hasRoom = false) :
      Produces m i ch (m.setProducer i (.overflowed f))
  | undo (f : ℕ) (hp : m.producers.lookup i = some (.overflowed f)) (hmu : m.closer.locks f = false) :
      Produces m i ch ((m.setEnqueued f false).drop i)

/-- every way a worker's step changes the manager -/
inductive Works (m : Manager R) (j : ℕ) : Manager R → Prop where
  | stop (hw : m.workers.lookup j = some .idle) (hq : m.quit = true) : Works m j (m.setWorker j .stopped)
  | pop (f : ℕ) (rest : List ℕ) (hw : m.workers.lookup j = some .idle) (hr : m.ready = f :: rest) :
      Works m j ({ m with ready := rest }.setWorker j (.popped f))
  | mark (f : ℕ) (hw : m.workers.lookup j = some (.popped f)) (hmu : m.closer.locks f = false) :
      Works m j ((m.setFile f (m.heap f).own).setWorker j (.draining f))
  | receive (f : ℕ) (ev : QueuedEvent R) (rest : List (QueuedEvent R)) (hw : m.workers.lookup j = some (.draining f))
      (hch : (m.heap f).ch = ev :: rest) :
      Works m j ((m.setFile f ((m.heap f).setCh rest)).setWorker j (.writing f ev))
  | empty (f : ℕ) (hw : m.workers.lookup j = some (.draining f)) (hch : (m.heap f).ch = []) :
      Works m j (m.setWorker j (.emptied f))
  | write (f : ℕ) (ev : QueuedEvent R) (hw : m.workers.lookup j = some (.writing f ev)) :
      Works m j ((m.write j f ev).setWorker j (.draining f))
  | release (f : ℕ) (now : ℤ) (hw : m.workers.lookup j = some (.emptied f)) (hmu : m.closer.locks f = false)
      (hch : (m.heap f).ch = []) :
      Works m j ((m.setFile f ((m.heap f).disown now)).setWorker j .idle)
  | again (f : ℕ) (hw : m.workers.lookup j = some (.emptied f)) : Works m j (m.setWorker j (.draining f))

/-- every way a step of `Close` changes the manager -/
inductive Closes (m : Manager R) (expired : Bool) : Manager R → Prop where
  | begin (order : List ℕ) (hc : m.closer = .absent) (ho : order.Perm m.tracked) :
      Closes m expired { m with closing := true, closer := .marking order }
  | marked (hc : m.closer = .marking []) : Closes m expired { m with closer := .polling }
  | lock (f : ℕ) (todo : List ℕ) (hc : m.closer = .marking (f :: todo)) (howned : (m.heap f).owned = false)
      (henq : (m.heap f).enqueued = false) (hch : (m.heap f).ch ≠ []) :
      Closes m expired { m.setEnqueued f true with closer := .locked f todo }
  | skip (f : ℕ) (todo : List ℕ) (hc : m.closer = .marking (f :: todo)) :
    Closes m expired { m with closer := .marking todo }
  | push (f : ℕ) (todo : List ℕ) (hc : m.closer = .locked f todo) (hroom : m.hasRoom = true) :
      Closes m expired { m with ready := m.ready ++ [f], closer := .marking todo }
  | undo (f : ℕ) (todo : List ℕ) (hc : m.closer = .locked f todo) (hroom : m.hasRoom = false) :
      Closes m expired { m.setEnqueued f false with closer := .marking todo }
  | poll (order : List ℕ) (hc : m.closer = .polling) (ho : order.Perm m.tracked) :
      Closes m expired { m with closer := .scanning 0 order }
  | look (n f : ℕ) (todo : List ℕ) (hc : m.closer = .scanning n (f :: todo)) :
      Closes m expired { m with closer := .looked (n + (m.heap f).ch.length) f todo }
  | count (n f : ℕ) (todo : List ℕ) (hc : m.closer = .looked n f todo) :
      Closes m expired { m with closer := .scanning (if (m.heap f).owned then n + 1 else n) todo }
  | drained (hc : m.closer = .scanning 0 []) : Closes m expired { m with closer := .stopping }
  | again (n : ℕ) (hc : m.closer = .scanning n []) : Closes m expired { m with closer := .polling }
  | expire (n : ℕ) (hc : m.closer = .scanning n []) (he : expired = true) :
    Closes m expired { m with closer := .stopping }
  | quit (hc : m.closer = .stopping) : Closes m expired { m with quit := true, closer := .waiting }
  | done (hc : m.closer = .waiting) (hs : m.stopped = true ∨ expired = true) :
    Closes m expired { m with closer := .returned }

/-- every way a step changes the manager -/
inductive Move (m : Manager R) : Step R → Manager R → Prop where
  /-- blocked, or nothing left to do -/
  | idle (s : Step R) : Move m s m
  | call (c : Call R) : Move m (.call c) ({ m with calls := m.calls + 1 }.setProducer m.calls (.calling c))
  | producer (i : ℕ) (ch : Choice) (m' : Manager R) (h : Produces m i ch m') : Move m (.producer i ch) m'
  | worker (j : ℕ) (ch : Choice) (m' : Manager R) (h : Works m j m') : Move m (.worker j ch) m'
  | reap (path : String) (now : ℤ) (f : ℕ) (hmu : m.closer.busy = false) (hl : m.files.lookup path = some f)
      (hidle : (m.heap f).idle = true) (hold : m.cfg.idleTimeout ≤ now - (m.heap f).lastActive) :
      Move m (.reap path now) { m with files := m.files.erase path }
  | closer (ch : Choice) (m' : Manager R) (h : Closes m ch.expired m') : Move m (.closer ch) m'

theorem evictIdleLocked_some {m m' : Manager R} {victim : Option String} (h : m.evictIdleLocked victim = some m')
    (hcap : m.cfg.maxFiles ≤ m.files.keys.length) : MakesRoom m victim m' := by
  obtain ⟨p, hv, h⟩ := Option.bind_eq_some_iff.1 h
  obtain ⟨f, hl, h⟩ := Option.bind_eq_some_iff.1 h
  split_ifs at h with hidle
  obtain rfl := Option.some.inj h
  exact .evict p f hl hidle hv hcap

variable (m : Manager R)

theorem producerStep_move (i : ℕ) (ch : Choice) : Move m (.producer i ch) (m.producerStep i ch) := by
  unfold producerStep
  split
  · rename_i c hp
    split_ifs with hmu
    · exact .idle _
    · have hfree : m.closer.busy = false := Bool.eq_false_iff.2 hmu
      unfold fileFor
      split_ifs with hclosing hcap
      · exact .producer i ch _ (.refuse c hp hfree)
      · have hopen : m.closing = false := Bool.eq_false_iff.2 hclosing
        cases hf : m.files.lookup c.path with
        | some f => exact .producer i ch _ (.found c f hp hfree hopen hf)
        | none =>
          simp only
          cases he : m.evictIdleLocked ch.victim with
          | none => exact .producer i ch _ (.refuse c hp hfree)
          | some m' => exact .producer i ch _ (.create c ch.now m' hp hfree hopen hf (evictIdleLocked_some he hcap))
      · have hopen : m.closing = false := Bool.eq_false_iff.2 hclosing
        cases hf : m.files.lookup c.path with
        | some f => exact .producer i ch _ (.found c f hp hfree hopen hf)
        | none => exact .producer i ch _ (.create c ch.now m hp hfree hopen hf (.below (not_le.1 hcap)))
  · rename_i c f hp
    split_ifs with hblock hgive hfits hfits
    · exact .producer i ch _ (.giveUp c f hp)
    · exact .producer i ch _ (.send c f hp hfits (by simp [hgive]))
    · exact .idle _
    · exact .producer i ch _ (.send c f hp hfits (by simp [hblock]))
    · exact .producer i ch _ (.giveUp c f hp)
  · rename_i f hp
    split_ifs with hmu hneed
    · exact .idle _
    · simp only [Bool.and_eq_true, Bool.not_eq_true'] at hneed
      exact .producer i ch _ (.signal f hp (Bool.eq_false_iff.2 hmu) hneed.1 hneed.2)
    · refine .producer i ch _ (.covered f hp (Bool.eq_false_iff.2 hmu) ?_)
      cases ho : (m.heap f).owned with
      | true => exact .inl rfl
      | false =>
        rw [ho] at hneed
        exact .inr (by simpa using hneed)
  · rename_i f hp
    split_ifs with hroom
    · exact .producer i ch _ (.push f hp hroom)
    · exact .producer i ch _ (.overflow f hp (Bool.eq_false_iff.2 hroom))
  · rename_i f hp
    split_ifs with hmu
    · exact .idle _
    · exact .producer i ch _ (.undo f hp (Bool.eq_false_iff.2 hmu))
  · exact .idle _

theorem workerStep_move (j : ℕ) (ch : Choice) : Move m (.worker j ch) (m.workerStep j ch) := by
  unfold workerStep
  split
  · rename_i hw
    split_ifs with hquit
    · rw [Bool.and_eq_true] at hquit
      exact .worker j ch _ (.stop hw hquit.1)
    · split
      · rename_i f rest hr
        exact .worker j ch _ (.pop f rest hw hr)
      · exact .idle _
  · rename_i f hw
    split_ifs with hmu
    · exact .idle _
    · exact .worker j ch _ (.mark f hw (Bool.eq_false_iff.2 hmu))
  · rename_i f hw
    split
    · rename_i ev rest hch
      exact .worker j ch _ (.receive f ev rest hw hch)
    · rename_i hch
      exact .worker j ch _ (.empty f hw hch)
  · rename_i f ev hw
    exact .worker j ch _ (.write f ev hw)
  · rename_i f hw
    split_ifs with hmu hch
    · exact .idle _
    · exact .worker j ch _ (.release f ch.now hw (Bool.eq_false_iff.2 hmu) (List.isEmpty_iff.1 hch))
    · exact .worker j ch _ (.again f hw)
  · exact .idle _

theorem closerStep_move (ch : Choice) : Move m (.closer ch) (m.closerStep ch) := by
  unfold closerStep
  split
  · rename_i hc
    split_ifs with ho
    · exact .closer ch _ (.begin ch.order hc ho)
    · exact .idle _
  · rename_i hc
    exact .closer ch _ (.marked hc)
  · rename_i f todo hc
    split_ifs with hneed
    · simp only [Bool.and_eq_true, Bool.not_eq_true', List.isEmpty_eq_false_iff] at hneed
      exact .closer ch _ (.lock f todo hc hneed.1.1 hneed.1.2 hneed.2)
    · exact .closer ch _ (.skip f todo hc)
  · rename_i f todo hc
    split_ifs with hroom
    · exact .closer ch _ (.push f todo hc hroom)
    · exact .closer ch _ (.undo f todo hc (Bool.eq_false_iff.2 hroom))
  · rename_i hc
    split_ifs with ho
    · exact .closer ch _ (.poll ch.order hc ho)
    · exact .idle _
  · rename_i n f todo hc
    exact .closer ch _ (.look n f todo hc)
  · rename_i n f todo hc
    exact .closer ch _ (.count n f todo hc)
  · rename_i hc
    exact .closer ch _ (.drained hc)
  · rename_i n _ hc
    split_ifs with he
    · exact .closer ch _ (.expire n hc he)
    · exact .closer ch _ (.again n hc)
  · rename_i hc
    exact .closer ch _ (.quit hc)
  · rename_i hc
    split_ifs with hs
    · exact .closer ch _ (.done hc (by simpa using hs))
    · exact .idle _
  · exact .idle _

/-- **Everything a step can do.** -/
theorem step_move (s : Step R) : Move m s (m.step s) := by
  cases s with
  | call c => exact .call c
  | producer i ch => exact producerStep_move m i ch
  | worker j ch => exact workerStep_move m j ch
  | reap path now =>
    simp only [step, reap]
    split_ifs with hmu
    · exact .idle _
    · split
      · rename_i f hl
        split_ifs with hidle
        · rw [Bool.and_eq_true] at hidle
          exact .reap path now f (Bool.eq_false_iff.2 hmu) hl hidle.1 (of_decide_eq_true hidle.2)
        · exact .idle _
      · exact .idle _
  | closer ch => exact closerStep_move m ch

end Manager

end AccessPoint.Userlog
