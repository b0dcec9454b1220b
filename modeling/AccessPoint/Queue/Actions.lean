/-
Job actions and the other rewrites of a live job (internal/queue/actions.go, `Queue.Modify` and `Queue.JobStatus` of
internal/queue/sched.go).

Each is a program over the store: it reads the flattened ad, works on its copy, and writes the copy back or archives it.
A hold or removal of a running job waits in between for the scheduler core to tear its run down. The record an operation
hands to the user log is part of its result.
-/
import AccessPoint.Queue.Factory
import AccessPoint.Sched.Command

namespace AccessPoint

open ClassAdLib

inductive ActionKind where
  | hold | release | remove | removeX
deriving DecidableEq, Repr

/-- `ArError` -/
def arError : ℤ := 0

/-- `ArSuccess` -/
def arSuccess : ℤ := 1

/-- `ArNotFound` -/
def arNotFound : ℤ := 2

/-- `ArBadStatus` -/
def arBadStatus : ℤ := 3

/-- `ArAlreadyDone` -/
def arAlreadyDone : ℤ := 4

/-- `ArPermissionDenied` -/
def arPermissionDenied : ℤ := 5

structure ActionRequest where
  kind : ActionKind
  /-- the authenticated user, empty when there is none -/
  actor : String
  reason : String
  holdReasonCode : ℤ
  holdReasonSub : ℤ
  /-- initiated by the schedd itself, no owner check -/
  system : Bool
deriving DecidableEq, Repr

variable {E : Type} [ClassAdLib E]

/-- `stripRunAttrs`, and `stripReconnectAttrs` of the scheduler -/
def stripRunAttrs (ad : Ad E) : Ad E := ((ad.delete .claimId).delete .startdIpAddr).delete .lastJobLeaseRenewal

/-- `LastRemoteHost` takes over a non-empty `RemoteHost`, which goes -/
def leaveHost (ad : Ad E) : Ad E :=
  let ad :=
    match ad.evaluateAttrString .remoteHost with
    | some host => if host ≠ "" then ad.setStr .lastRemoteHost host else ad
    | none => ad
  ad.delete .remoteHost

theorem leaveHost_apply (ad : Ad E) {a : Attr} (h : a ≠ .remoteHost) (h' : a ≠ .lastRemoteHost) :
    leaveHost ad a = ad a := by
  unfold leaveHost
  rw [Ad.delete_apply, if_neg h]
  cases ad.evaluateAttrString .remoteHost with
  | none => rfl
  | some =>
    dsimp only
    split_ifs
    · rw [Ad.setStr_apply, if_neg h']
    · rfl

/-- the common part of the status changes -/
def moveTo (ad : Ad E) (last status now : ℤ) : Ad E :=
  ((ad.setInt .lastJobStatus last).setInt .jobStatus status).setInt .enteredCurrentStatus now

/-! ## Whole rewrites -/

/-- `archiveAndDelete`; the errors of both history calls are ignored -/
def archiveAndDelete (k : JobKey) (ad : Ad E) : Go E Unit := do
  Go.append k ad
  Go.flush
  Go.delete k

namespace Queue

/-- `Modify`; false when the job is gone or the write fails -/
def modify (k : JobKey) (fn : Ad E → Ad E) : Go E Bool := do
  match ← Go.get k with
  | none => pure false
  | some ad => Go.put k (fn ad)

/-- `JobStatus`: 0 when the job is gone -/
def jobStatus (k : JobKey) : Go E ℤ := do
  match ← Go.get k with
  | none => pure 0
  | some ad => pure (ad.int0 .jobStatus)

/-- `Complete` -/
def complete (k : JobKey) : Go E Unit := do
  match ← Go.get k with
  | none => pure ()
  | some ad =>
    let now ← Go.clock
    archiveAndDelete k ((ad.setInt .jobStatus statusCompleted).setInt .completionDate now)

/-! ## Actions -/

/-- the vacate hook, for a running job and when one is installed: submit the teardown of the run and wait for it -/
def vacate (hook : Bool) (k : JobKey) (status : ℤ) : Go E Unit :=
  if status = statusRunning ∧ hook then do
    Go.teardown k
    let _ ← Go.await
    pure ()
  else pure ()

/-- the reason of a hold, as the ad and the user log get it -/
def holdReason (req : ActionRequest) : String :=
  if req.reason = "" then "via condor_hold (by user " ++ shortName req.actor ++ ")" else req.reason

/-- `CONDOR_HOLD_CODE::UserRequest` when no code is given -/
def holdCode (req : ActionRequest) : ℤ := if req.holdReasonCode = 0 then 1 else req.holdReasonCode

/-- the ad of a held job -/
def holdAd (req : ActionRequest) (status now : ℤ) (ad : Ad E) : Ad E :=
  let ad := moveTo ad status statusHeld now
  let ad := if status = statusRunning then stripRunAttrs (leaveHost ad) else ad
  let ad := ad.setStr .holdReason (holdReason req)
  let ad := ad.setInt .holdReasonCode (holdCode req)
  let ad := ad.setInt .holdReasonSubCode req.holdReasonSub
  ad.setInt .numHolds (ad.int0 .numHolds + 1)

/-- whatever the job was, a held job's own status is Held -/
theorem holdAd_jobStatus (req : ActionRequest) (status now : ℤ) (ad : Ad E) :
    holdAd req status now ad .jobStatus = some (lit (.int statusHeld)) := by
  have hmoved : moveTo ad status statusHeld now .jobStatus = some (lit (.int statusHeld)) := rfl
  unfold holdAd
  simp only [Ad.setStr_apply, Ad.setInt_apply, reduceCtorEq, if_false]
  split_ifs
  · simp only [stripRunAttrs, Ad.delete_apply, reduceCtorEq, if_false]
    rw [leaveHost_apply _ (by decide) (by decide)]
    exact hmoved
  · exact hmoved

/-- the status a released job gets -/
def releaseStatus (ad : Ad E) : ℤ :=
  match ad.evaluateAttrInt .jobStatusOnRelease with
  | some v => if 0 < v then v else statusIdle
  | none => statusIdle

/-- the ad of a released job; the failure counters start afresh -/
def releaseAd (req : ActionRequest) (now : ℤ) (ad : Ad E) : Ad E :=
  let ad := (ad.setInt .jobStatus (releaseStatus ad)).setInt .enteredCurrentStatus now
  let ad := [Attr.holdReason, .holdReasonCode, .holdReasonSubCode, .numShadowExceptions, .vacateReason,
    .vacateReasonCode, .vacateReasonSubCode].foldl Ad.delete ad
  if req.reason ≠ "" then ad.setStr .releaseReason req.reason else ad

/-- the record of a removed job -/
def removeAd (req : ActionRequest) (status now : ℤ) (ad : Ad E) : Ad E :=
  let ad := if status = statusRunning then stripRunAttrs ad else ad
  let ad := moveTo ad status statusRemoved now
  if req.reason ≠ "" then ad.setStr .removeReason req.reason else ad

def removeReason (req : ActionRequest) : String :=
  if req.reason = "" then "via condor_rm (by user " ++ shortName req.actor ++ ")" else req.reason

/-- the hold of a job whose ad is `ad` -/
def holdJob (hook : Bool) (k : JobKey) (req : ActionRequest) (apply : Bool) (ad : Ad E) (now : ℤ) :
    Go E (ℤ × List (ULog E)) :=
  let status := ad.int0 .jobStatus
  let code := ad.int0 .holdReasonCode
  if status = statusHeld ∧ (code = 1 ∨ code = 16) then pure (arAlreadyDone, [])
  else if status = statusRemoved ∨ status = statusCompleted then pure (arPermissionDenied, [])
  else if ¬ apply then pure (arSuccess, [])
  else do
    vacate hook k status
    let held := holdAd req status now ad
    let ok ← Go.put k held
    if ok then pure (arSuccess, [.held held (holdReason req) (holdCode req) req.holdReasonSub])
    else pure (arError, [])

/-- the release of a job whose ad is `ad`; a job held for spooling (16) is not releasable -/
def releaseJob (k : JobKey) (req : ActionRequest) (apply : Bool) (ad : Ad E) (now : ℤ) : Go E (ℤ × List (ULog E)) :=
  if ad.int0 .jobStatus ≠ statusHeld then pure (arBadStatus, [])
  else if ad.int0 .holdReasonCode = 16 then pure (arBadStatus, [])
  else if ¬ apply then pure (arSuccess, [])
  else do
    let released := releaseAd req now ad
    let ok ← Go.put k released
    if ok then pure (arSuccess, [.released released req.reason]) else pure (arError, [])

/-- the removal of a job whose ad is `ad` -/
def removeJob (hook : Bool) (k : JobKey) (req : ActionRequest) (apply : Bool) (ad : Ad E) (now : ℤ) :
    Go E (ℤ × List (ULog E)) :=
  let status := ad.int0 .jobStatus
  if status = statusRemoved then pure (arAlreadyDone, [])
  else if ¬ apply then pure (arSuccess, [])
  else do
    vacate hook k status
    let removed := removeAd req status now ad
    archiveAndDelete k removed
    pure (arSuccess, [.aborted removed (removeReason req)])

/-- the owner rule for tools; only the static part of the queue (domain, super users) is read -/
def mayAct (q : Queue E) (req : ActionRequest) (ad : Ad E) : Bool :=
  req.system || (req.actor ≠ "" && (q.isSuperUser req.actor || sameUser E q.domain req.actor (q.jobUser ad)))

def actOnJob (q : Queue E) (hook : Bool) (k : JobKey) (req : ActionRequest) (apply : Bool) :
    Go E (ℤ × List (ULog E)) := do
  match ← Go.get k with
  | none => pure (arNotFound, [])
  | some ad =>
    if ¬ q.mayAct req ad then pure (arPermissionDenied, [])
    else do
      let now ← Go.clock
      match req.kind with
      | .hold => holdJob hook k req apply ad now
      | .release => releaseJob k req apply ad now
      | .remove => removeJob hook k req apply ad now
      | .removeX => removeJob hook k req apply ad now

/-- `CheckAction`: the code the action would give, nothing changed -/
def checkAction (q : Queue E) (k : JobKey) (req : ActionRequest) : Go E (ℤ × List (ULog E)) :=
  actOnJob q true k req false

/-- `ApplyAction` -/
def applyAction (q : Queue E) (hook : Bool) (k : JobKey) (req : ActionRequest) : Go E (ℤ × List (ULog E)) :=
  actOnJob q hook k req true

end Queue

end AccessPoint
