/-
Sandbox transfers (internal/spool/spool.go, `doSpool` and `doTransfer`; the output recorder of cmd/schedd/main.go) and
the schedd with transfers under way.

A transfer is a goroutine of its own. It rewrites a job with `Modify`, which reads the ad and later puts the rewritten
ad back; between the two anything may happen to the job. The files themselves are not modelled: how the transfer of one
sandbox ends is given (`received`, `sent`), and so are the jobs a download is about.

- `doSpool`: an upload; every job is checked first, then every sandbox is received, then every job is released.
- `Site`: the schedd and its transfers; one step is a step of the schedd, a transfer that starts, or one command of a
  transfer.
-/
import AccessPoint.Queue.JobUpdates
import AccessPoint.Spool

namespace AccessPoint

open ClassAdLib

variable {E : Type} [ClassAdLib E]

/-- `OwnsJobAd` -/
def Queue.ownsJobAd (q : Queue E) (authUser : String) (ad : Ad E) : Bool :=
  q.isSuperUser authUser || sameUser E q.domain authUser (q.jobUser ad)

/-- `JobAccount`: the local account of the job, "" for the schedd's own -/
def jobAccount (ad : Ad E) : Except String String :=
  let user := (ad.evaluateAttrString .user).getD ""
  let owner := trimSpace E ((ad.evaluateAttrString .owner).getD "")
  if isUnmapped E user then .error ("job owner " ++ quote E user ++ " is not a local account")
  else if equalFold E owner "unauthenticated" then .error ("job owner " ++ quote E owner ++ " is not a local account")
  else if owner = "root" ∨ owner = "LOCAL_SYSTEM" then .error ("job owner " ++ quote E owner ++ " is not permitted")
  else if owner = "condor" then .ok ""
  else .ok owner

namespace Spool

/-- `SpoolingInput` -/
def spoolingInput : ℤ := 16

/-- `preSpoolCheck` -/
def preSpoolCheck (q : Queue E) (authUser : String) (k : JobKey) (now : ℤ) : Go E (Except String Unit) := do
  match ← Go.get k with
  | none => pure (.error ("spool: job " ++ k.text ++ " not found"))
  | some ad =>
    if ¬ q.ownsJobAd authUser ad then
      pure (.error ("spool: user " ++ quote E authUser ++ " may not spool for job " ++ k.text))
    else
      match jobAccount ad with
      | .error err => pure (.error ("spool: job " ++ k.text ++ ": " ++ err))
      | .ok _ =>
        if ad.int0 .stageInFinish ≠ 0 then pure (.error ("spool: stagein already finished for job " ++ k.text))
        else if ad.int0 .jobStatus = statusHeld ∧ ad.int0 .holdReasonCode ≠ spoolingInput then
          pure (.error ("spool: job " ++ k.text ++ " is held but not for spooling (hold code " ++
            toString (ad.int0 .holdReasonCode) ++ ")"))
        else do
          let _ ← Queue.modify k fun ad => ad.setInt .stageInStart now
          pure (.ok ())

/-- `ownerOf` -/
def ownerOf (k : JobKey) : Go E (Except String String) := do
  match ← Go.get k with
  | none => pure (.error ("spool: job " ++ k.text ++ " not found"))
  | some ad => pure ((jobAccount ad).mapError fun err => "spool: job " ++ k.text ++ ": " ++ err)

/-- `p` for one job after the other, up to the first error -/
def forJobs (p : JobKey → Go E (Except String Unit)) : List JobKey → Go E (Except String Unit)
  | [] => pure (.ok ())
  | k :: ks => do
    match ← p k with
    | .error err => pure (.error err)
    | .ok _ => forJobs p ks

/-- the sandbox of one job comes in -/
def receiveSandbox (received : JobKey → Except String Unit) (k : JobKey) : Go E (Except String Unit) := do
  match ← ownerOf k with
  | .error err => pure (.error err)
  | .ok _ => pure (received k)

/-- `doSpool` for the jobs the client named -/
def doSpool (q : Queue E) (authUser : String) (dir : JobKey → String) (received : JobKey → Except String Unit)
    (jobs : List JobKey) : Go E (Except String Unit) := do
  let now ← Go.clock
  match ← forJobs (fun k => preSpoolCheck q authUser k now) jobs with
  | .error err => pure (.error err)
  | .ok _ =>
    match ← forJobs (receiveSandbox received) jobs with
    | .error err => pure (.error err)
    | .ok _ => forJobs (fun k => do
        let _ ← finishSpool k (dir k)
        pure (.ok ())) jobs

/-- the part of `doTransfer` about one job that matched: its sandbox goes out -/
def sendJob (sent : JobKey → Except String Unit) (k : JobKey) : Go E (Except String Unit) :=
  match sent k with
  | .error err => pure (.error err)
  | .ok _ => do
    let now ← Go.clock
    let _ ← Queue.modify k fun ad => ad.setInt .stageOutFinish now
    pure (.ok ())

/-- the output recorder -/
def recordOutput (k : JobKey) (files : String) : Go E (Except String Unit) := do
  let _ ← Queue.modify k fun ad => ad.setStr .spooledOutputFiles files
  pure (.ok ())

end Spool

/-- the goroutines that move sandboxes -/
inductive Transfer where
  | upload (authUser : String) (dir : JobKey → String) (received : JobKey → Except String Unit) (jobs : List JobKey)
  | download (sent : JobKey → Except String Unit) (jobs : List JobKey)
  | recorder (k : JobKey) (files : String)

def Transfer.prog (q : Queue E) : Transfer → Go E (Except String Unit)
  | .upload authUser dir received jobs => Spool.doSpool q authUser dir received jobs
  | .download sent jobs => Spool.forJobs (Spool.sendJob sent) jobs
  | .recorder k files => Spool.recordOutput k files

/-! ## The schedd and its transfers -/

structure Site (E : Type) where
  world : World E
  transfers : KeyMap ℕ (Go E (Except String Unit))
  next : ℕ

namespace Site

inductive Step where
  | sched (s : World.Step)
  | start (tr : Transfer)
  /-- transfer `i` performs its next command -/
  | transfer (i : ℕ) (ch : Choice)

def start (q : Queue E) : Site E := ⟨World.start q, ∅, 0⟩

def step (cfg : SchedConfig E) (site : Site E) : Step → Site E
  | .sched s => { site with world := World.step cfg site.world s }
  | .start tr =>
    { site with transfers := site.transfers.insert site.next (tr.prog site.world.q), next := site.next + 1 }
  | .transfer i ch =>
    match site.transfers.lookup i with
    | some (.call c f) =>
      let r := site.world.q.coll.perform ch c
      { site with world := site.world.setColl r.2, transfers := site.transfers.insert i (f r.1) }
    | _ => site

def run (cfg : SchedConfig E) (site : Site E) (steps : List Step) : Site E := steps.foldl (step cfg) site

/-- a transfer performs its next command, or is over -/
theorem step_transfer (cfg : SchedConfig E) (site : Site E) (i : ℕ) (ch : Choice) :
    step cfg site (.transfer i ch) = site ∨ ∃ c f, site.transfers.lookup i = some (.call c f) ∧
      step cfg site (.transfer i ch) =
        { site with world := site.world.setColl (site.world.q.coll.perform ch c).2
                    transfers := site.transfers.insert i (f (site.world.q.coll.perform ch c).1) } := by
  simp only [step]
  split
  · rename_i c f hl
    exact .inr ⟨c, f, hl, rfl⟩
  · exact .inl rfl

/-- the command a transfer is about to perform -/
def command (site : Site E) : Step → Option (Cmd E)
  | .transfer i _ =>
    match site.transfers.lookup i with
    | some (.call c _) => some c
    | _ => none
  | _ => none

end Site

end AccessPoint
