/-
The events of the scheduler core and the steps its goroutines take (internal/sched/sched.go, internal/queue/actions.go).

Every goroutine is a program over `Cmd`: the atomic operations on the job store and the history, the event channel, the
completion channel of a teardown, the clock, and the dealings of a run with the startd and the starter, which the model
leaves to the environment (`Choice`). A channel is named by the number of the call that waits on it. Which
leases have expired is a choice here; the match table that decides it is in Sched/LeaseSweep.
-/
import AccessPoint.Core.Prog
import AccessPoint.Queue.Store

namespace AccessPoint

/-- `negotiate.Match`, what the core reads of it -/
structure Match where
  key : JobKey
  claimID : String
  slotName : String
deriving DecidableEq, Repr

/-- `shadow.Result`, what the core reads of it -/
structure RunResult where
  /-- the raw wait status -/
  exitStatus : ℕ
  reason : ℤ
deriving DecidableEq, Repr

namespace RunResult

/-- `ExitCode`; none when the job died on a signal -/
def exitCode (r : RunResult) : Option ℤ := if r.exitStatus % 128 ≠ 0 then none else some (r.exitStatus / 256 % 256)

/-- `TermSignal` -/
def termSignal (r : RunResult) : Option ℤ := if r.exitStatus % 128 = 0 then none else some (r.exitStatus % 128)

end RunResult

/-- the error of a shadow run: the one that marks a detached shadow, or another with its text -/
inductive RunErr where
  | detached
  | other (msg : String)
deriving DecidableEq, Repr

/-- the events of the core; `done` is the channel to close -/
inductive Event where
  | evMatch (m : Match)
  | evStarted (k : JobKey) (slotName claimID : String)
  | evExited (k : JobKey) (res : Option RunResult) (err : Option RunErr)
  | evFailed (k : JobKey) (err : RunErr) (panicked : Bool) (claimID : String) (released : Bool)
  | evReschedule
  | evTeardown (k : JobKey) (done : Option ℕ)
  | evDrain (done : ℕ)
  | evReconnectFailed (k : JobKey) (claimID err : String)
  | evRecover (done : Option ℕ)
  | evPolicyRemove (k : JobKey) (reason : String)
  | evPolicyHold (k : JobKey) (reason : String) (code sub : ℤ)
  | evPolicyRelease (k : JobKey) (reason : String)
  | evPolicyDone (k : JobKey)
deriving DecidableEq, Repr

namespace Event

/-- the event that ends the run of `k` -/
def terminalFor (k : JobKey) : Event → Bool
  | evExited k' _ _ => k' = k
  | evFailed k' _ _ _ _ => k' = k
  | evReconnectFailed k' _ _ => k' = k
  | _ => false

def policyDoneFor (k : JobKey) : Event → Bool
  | evPolicyDone k' => k' = k
  | _ => false

/-- the channel that comes with the event -/
def channel : Event → Option ℕ
  | evTeardown _ done => done
  | evDrain done => some done
  | evRecover done => done
  | _ => none

/-- `evStarted` of `k` -/
def startedFor (k : JobKey) : Event → Bool
  | evStarted k' _ _ => k' = k
  | _ => false

end Event

/-- how the claim and activation of a run went -/
inductive ClaimOutcome where
  /-- an error on the way; `claimID` is the claim to clean up -/
  | failed (msg claimID : String)
  | panicked (msg : String)
  | activated (slotName claimID : String)
deriving DecidableEq, Repr

/-- how the shadow of an activated run ended -/
inductive ServeOutcome where
  | failed (msg : String)
  | panicked (msg : String)
  | exited (res : Option RunResult) (err : Option RunErr)
deriving DecidableEq, Repr

/-- how the attempt to re-attach to a running job went, and how the run then ended -/
inductive ReattachOutcome where
  | failed (msg : String)
  | panicked (msg : String)
  | exited (res : Option RunResult) (err : Option RunErr)
deriving DecidableEq, Repr

/-- one record of the user log -/
inductive ULog (E : Type) where
  | held (ad : Ad E) (reason : String) (code sub : ℤ)
  | released (ad : Ad E) (reason : String)
  | aborted (ad : Ad E) (reason : String)
  | execute (ad : Ad E) (host slot : String)
  | terminated (ad : Ad E) (bySignal : Bool) (code : ℤ)
  | evicted (ad : Ad E) (reason : String)
  | disconnected (ad : Ad E) (reason startdName startdAddr : String)
  | reconnected (ad : Ad E) (startdName startdAddr : String)
  | reconnectFailed (ad : Ad E) (reason startdName : String)

/-- the atomic steps of a goroutine -/
inductive Cmd (E : Type) where
  | get (k : JobKey)
  | put (k : JobKey) (ad : Ad E)
  | delete (k : JobKey)
  /-- `hist.Append` of the record of `k` -/
  | append (k : JobKey) (ad : Ad E)
  | flush
  | scan
  | clock
  /-- submit `evTeardown` with a new channel -/
  | teardown (k : JobKey)
  /-- wait for that channel, or for the timeout -/
  | await
  | submit (ev : Event)
  | expireSweep
  | claim (m : Match)
  | serve
  | reattach

/-- the response to each step -/
def Cmd.Resp {E : Type} : Cmd E → Type
  | .get _ => Option (Ad E)
  | .put _ _ => Bool
  | .scan => List (Ad E)
  | .clock => ℤ
  | .await => Bool
  | .expireSweep => List String
  | .claim _ => ClaimOutcome
  | .serve => ServeOutcome
  | .reattach => ReattachOutcome
  | _ => Unit

/-- what the environment decides about one step -/
structure Choice where
  now : ℤ
  /-- the write is done, or reports an error -/
  ok : Bool
  /-- the wait gives up -/
  timeout : Bool
  /-- the public ids of the claims whose lease has expired -/
  expired : List String
  claim : ClaimOutcome
  serve : ServeOutcome
  reattach : ReattachOutcome
deriving DecidableEq, Repr

/-- one command against the store alone; what is not the store's is the environment's -/
def Store.perform {E : Type} (s : Store E) (ch : Choice) : (c : Cmd E) → c.Resp × Store E
  | .get k => (s.get k, s)
  | .put k ad => if ch.ok then (true, s.put k ad) else (false, s)
  | .delete k => ((), s.delete k)
  | .scan => (s.scan, s)
  | .clock => (ch.now, s)
  | .await => (!ch.timeout, s)
  | .expireSweep => (ch.expired, s)
  | .claim _ => (ch.claim, s)
  | .serve => (ch.serve, s)
  | .reattach => (ch.reattach, s)
  | .append _ _ => ((), s)
  | .flush => ((), s)
  | .teardown _ => ((), s)
  | .submit _ => ((), s)

/-- a goroutine that returns an `α` -/
abbrev Go (E : Type) (α : Type) := Prog (Cmd.Resp (E := E)) α

namespace Go

variable {E : Type}

def get (k : JobKey) : Go E (Option (Ad E)) := Prog.call (Cmd.get k) Prog.ret
def put (k : JobKey) (ad : Ad E) : Go E Bool := Prog.call (Cmd.put k ad) Prog.ret
def delete (k : JobKey) : Go E Unit := Prog.call (Cmd.delete k) Prog.ret
def append (k : JobKey) (ad : Ad E) : Go E Unit := Prog.call (Cmd.append k ad) Prog.ret
def flush : Go E Unit := Prog.call Cmd.flush Prog.ret
def scan : Go E (List (Ad E)) := Prog.call Cmd.scan Prog.ret
def clock : Go E ℤ := Prog.call Cmd.clock Prog.ret
def teardown (k : JobKey) : Go E Unit := Prog.call (Cmd.teardown k) Prog.ret
def await : Go E Bool := Prog.call Cmd.await Prog.ret
def submit (ev : Event) : Go E Unit := Prog.call (Cmd.submit ev) Prog.ret
def expireSweep : Go E (List String) := Prog.call Cmd.expireSweep Prog.ret
def claim (m : Match) : Go E ClaimOutcome := Prog.call (Cmd.claim m) Prog.ret
def serve : Go E ServeOutcome := Prog.call Cmd.serve Prog.ret
def reattach : Go E ReattachOutcome := Prog.call Cmd.reattach Prog.ret

end Go

end AccessPoint
