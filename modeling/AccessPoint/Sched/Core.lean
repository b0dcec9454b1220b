/-
The scheduler core (internal/sched/sched.go): the registry of running jobs and the handler of every event.

A handler changes the registry when it takes its event and again when it ends; in between it is a program over the store
that interleaves with the other goroutines. `handle` therefore gives the registry at the start and a program whose
result, a `Finish`, says what happens at the end: the runs that start, the policy action that is handed off, the
channels that are closed, the runs that are vacated, and the user-log records. Nothing else touches the registry, so
deferring these is not observable. The best-effort release of surplus claims, statistics and log lines are left out, and
the match table is in Sched/LeaseSweep; a Go map is iterated in the order of the model's map.
-/
import AccessPoint.Queue.Actions
import AccessPoint.Policy

namespace AccessPoint

open ClassAdLib

/-- `holdCodeShadowException` -/
def holdCodeShadowException : ℤ := 1002

/-- one claimed or running job -/
structure RunInfo where
  claimID : String
  slotName : String
  /-- its context is cancelled -/
  cancelled : Bool
  /-- torn down deliberately: the exit event writes no job state -/
  vacated : Bool
  /-- told to step away for a reconnect: the exit event leaves the job Running -/
  detached : Bool
  /-- recovered at startup -/
  reconnect : Bool
  /-- the channels of the calls that wait for the run to be reaped -/
  waiters : List ℕ
deriving DecidableEq, Repr

/-- the state only the core goroutine touches -/
structure Core where
  running : KeyMap JobKey RunInfo
  draining : Bool
  drainDone : Option ℕ
  policyPending : List JobKey
  gauge : ℤ

/-- the options the core reads -/
structure SchedConfig (E : Type) where
  maxExceptions : ℤ
  reconnectDisabled : Bool
  defaultJobLease : ℤ
  /-- a user log is installed -/
  userlog : Bool
  /-- the vacate hook is installed -/
  hook : Bool
  sysPolicy : Option (Policy.System E)
  /-- `claimPublicID` -/
  publicID : String → String

/-- a run to start: its registry entry and its goroutine -/
structure NewRun (E : Type) where
  key : JobKey
  info : RunInfo
  prog : Go E (ℤ × List (ULog E))

/-- what happens when a handler ends -/
structure Finish (E : Type) where
  runs : List (NewRun E) := []
  policy : Option (JobKey × ActionRequest) := none
  close : List ℕ := []
  vacate : List JobKey := []
  ulog : List (ULog E) := []

namespace Core

def init : Core := ⟨∅, false, none, [], 0⟩

/-- the entry of a run that is leaving -/
def drop (core : Core) (k : JobKey) : Core :=
  if k ∈ core.running then { core with running := core.running.erase k, gauge := core.gauge - 1 } else core

def add (core : Core) (k : JobKey) (ri : RunInfo) : Core :=
  { core with running := core.running.insert k ri, gauge := core.gauge + 1 }

def mapRuns (core : Core) (f : JobKey → RunInfo → RunInfo) : Core :=
  { core with running := core.running.mapKeys fun k ri => some (f k ri) }

/-- `maybeFinishDrain`, with the channel to close -/
def maybeFinishDrain (core : Core) : Core × List ℕ :=
  match core.drainDone with
  | some done => if core.draining ∧
    core.running.keys = [] then ({ core with drainDone := none }, [done]) else (core, [])
  | none => (core, [])

end Core

variable {E : Type} [ClassAdLib E]

/-! ## Goroutines of a run -/

/-- `runJob`: claim, activate and serve, reporting by events -/
def runJob (m : Match) : Go E (ℤ × List (ULog E)) := do
  match ← Go.claim m with
  | .failed msg claimID =>
    Go.submit (.evFailed m.key (.other msg) false claimID false)
    pure (0, [])
  | .panicked msg =>
    Go.submit (.evFailed m.key (.other ("panic: " ++ msg)) true "" false)
    pure (0, [])
  | .activated slotName claimID =>
    Go.submit (.evStarted m.key slotName claimID)
    match ← Go.serve with
    | .failed msg =>
      Go.submit (.evFailed m.key (.other ("shadow.New: " ++ msg)) false claimID false)
      pure (0, [])
    | .panicked msg =>
      Go.submit (.evFailed m.key (.other ("panic: " ++ msg)) true "" false)
      pure (0, [])
    | .exited res err =>
      Go.submit (.evExited m.key res err)
      pure (0, [])

/-- `reconnectJob` -/
def reconnectJob (cfg : SchedConfig E) (k : JobKey) (claimID : String) (job : Ad E) : Go E (ℤ × List (ULog E)) := do
  match ← Go.reattach with
  | .failed msg =>
    Go.submit (.evReconnectFailed k claimID msg)
    pure (0, [])
  | .panicked msg =>
    Go.submit (.evFailed k (.other ("panic: " ++ msg)) true "" false)
    pure (0, [])
  | .exited res err =>
    let startdName := (job.evaluateAttrString .remoteHost).getD ""
    let startdAddr := (job.evaluateAttrString .startdIpAddr).getD ""
    Go.submit (.evExited k res err)
    pure (0, if cfg.userlog then [.reconnected job startdName startdAddr] else [])

/-! ## Rewrites of the job ad -/

/-- everything before the first `#` of a claim id, empty when there is none -/
def claimStartdSinful (claimID : String) : String :=
  if '#' ∈ claimID.toList then String.ofList (claimID.toList.takeWhile (· ≠ '#')) else ""

/-- set `a` unless the ad has it -/
def setIfAbsent (ad : Ad E) (a : Attr) (i : ℤ) : Ad E := if (ad.lookup a).isSome then ad else ad.setInt a i

def bump (ad : Ad E) (a : Attr) : Ad E := ad.setInt a (ad.int0 a + 1)

/-- the ad of a job that started to run -/
def startedAd (cfg : SchedConfig E) (slotName claimID : String) (now : ℤ) (ad : Ad E) : Ad E :=
  let ad := moveTo ad (ad.int0 .jobStatus) statusRunning now
  let ad := (ad.setStr .remoteHost slotName).setInt .jobCurrentStartDate now
  let ad := setIfAbsent ad .jobStartDate now
  let ad := bump (bump (bump ad .numJobStarts) .numShadowStarts) .jobRunCount
  let ad := ad.setInt .shadowBday now
  let ad :=
    if claimID ≠ "" then
      let ad := ad.setStr .claimId claimID
      if claimStartdSinful claimID ≠ "" then ad.setStr .startdIpAddr (claimStartdSinful claimID) else ad
    else ad
  let ad := setIfAbsent ad .jobLeaseDuration cfg.defaultJobLease
  ad.setInt .lastJobLeaseRenewal now

/-- the ad of a job whose run reported an exit; its status stays Running until the policy has decided -/
def exitedAd (res : RunResult) (now : ℤ) (ad : Ad E) : Ad E :=
  let ad := stripRunAttrs (leaveHost ad)
  let ad :=
    match res.exitCode, res.termSignal with
    | some code, _ => ((ad.setInt .exitCode code).set .exitBySignal (.bool false)).setInt .exitStatus code
    | none, some sig => (ad.set .exitBySignal (.bool true)).setInt .exitSignal sig
    | none, none => ((ad.set .exitBySignal (.bool false)).setInt .exitCode 0).setInt .exitStatus 0
  let ad :=
    match ad.evaluateAttrInt .jobCurrentStartDate with
    | some start =>
      if 0 < start then ad.setInt .remoteWallClockTime (ad.int0 .remoteWallClockTime + (now - start)) else ad
    | none => ad
  (bump ad .numJobCompletions).setInt .lastJobStatus statusRunning

/-- the ad of a job held by policy as it exited -/
def heldOnExitAd (reason : String) (code sub now : ℤ) (ad : Ad E) : Ad E :=
  let ad := moveTo ad statusRunning statusHeld now
  let ad := ((ad.setStr .holdReason reason).setInt .holdReasonCode code).setInt .holdReasonSubCode sub
  bump ad .numHolds

/-- the ad of a Running job that goes back to Idle -/
def requeuedAd (now : ℤ) (ad : Ad E) : Ad E := moveTo (stripRunAttrs (leaveHost ad)) statusRunning statusIdle now

/-- the ad of a job whose run died, before the failure is counted -/
def failedBase (now : ℤ) (ad : Ad E) : Ad E :=
  ((stripRunAttrs (leaveHost ad)).setInt .lastJobStatus statusRunning).setInt .enteredCurrentStatus now

/-- the failures counted after this one -/
def failures (count : Bool) (now : ℤ) (ad : Ad E) : ℤ :=
  if count then (failedBase now ad).int0 .numShadowExceptions + 1 else 0

def failedReason (excepts : ℤ) (why : String) : String :=
  "Job has failed " ++ toString excepts ++ " times; last failure: " ++ why

/-- the job is held after this failure -/
def exhausted (cfg : SchedConfig E) (count : Bool) (now : ℤ) (ad : Ad E) : Bool :=
  count && cfg.maxExceptions ≤ failures count now ad

/-- the ad of a job whose run died -/
def failedAd (cfg : SchedConfig E) (why : String) (count : Bool) (now : ℤ) (ad : Ad E) : Ad E :=
  let excepts := failures count now ad
  let out := failedBase now ad
  let out :=
    if count then
      (((out.setInt .numShadowExceptions excepts).setStr .vacateReason ("Shadow exception: " ++ why)).setInt
        .vacateReasonCode holdCodeShadowException).setInt .vacateReasonSubCode 0
    else out
  if exhausted cfg count now ad then
    let out := (out.setInt .jobStatus statusHeld).setStr .holdReason (failedReason excepts why)
    bump ((out.setInt .holdReasonCode holdCodeShadowException).setInt .holdReasonSubCode 0) .numHolds
  else out.setInt .jobStatus statusIdle

/-- `leaseAlive` -/
def leaseAlive (ad : Ad E) (now : ℤ) : Bool :=
  match ad.evaluateAttrInt .jobLeaseDuration, ad.evaluateAttrInt .lastJobLeaseRenewal with
  | some dur, some renewal => 0 < dur && 0 < renewal && now - renewal < dur
  | _, _ => false

theorem Core.mem_drop {core : Core} {k k' : JobKey} : k' ∈ (core.drop k).running ↔ k' ≠ k ∧ k' ∈ core.running := by
  unfold Core.drop
  split_ifs with h
  · exact AList.mem_erase
  · constructor
    · exact fun hk => ⟨fun he => h (he ▸ hk), hk⟩
    · exact fun hk => hk.2

variable {k : JobKey}

theorem Core.mem_mapRuns {core : Core} {f : JobKey → RunInfo → RunInfo} :
    k ∈ (core.mapRuns f).running ↔ k ∈ core.running := by
  rw [KeyMap.mem_iff_lookup, KeyMap.mem_iff_lookup, Core.mapRuns, KeyMap.lookup_mapKeys]
  cases core.running.lookup k <;> simp

theorem Core.maybeFinishDrain_running (core : Core) :
    core.maybeFinishDrain.1.running = core.running ∧ core.maybeFinishDrain.1.policyPending = core.policyPending := by
  unfold Core.maybeFinishDrain
  split
  · split_ifs <;> exact ⟨rfl, rfl⟩
  · exact ⟨rfl, rfl⟩

theorem Core.drop_pending (core : Core) (k : JobKey) : (core.drop k).policyPending = core.policyPending := by
  unfold Core.drop
  split_ifs <;> rfl

/-! ## Handlers -/

namespace Sched

/-- the registry after a handler took its event, and the rest of the handler -/
abbrev Handler (E : Type) := Core × Go E (Finish E)

/-- the user-log record `f` makes of the ad of `k`, when a user log is installed and the job is there -/
def logJob (cfg : SchedConfig E) (k : JobKey) (f : Ad E → ULog E) : Go E (List (ULog E)) :=
  if cfg.userlog then do
    match ← Go.get k with
    | none => pure []
    | some ad => pure [f ad]
  else pure []

def handleMatch (core : Core) (m : Match) : Handler E :=
  if core.draining ∨ m.key.cluster < 0 ∨ m.key.proc < 0 ∨ m.claimID = "" ∨ m.key ∈ core.running then (core, pure {})
  else
    (core, do
      let status ← Queue.jobStatus m.key
      if status ≠ statusIdle then pure {}
      else do
        match ← Go.get m.key with
        | none => pure {}
        | some _ =>
          pure { runs := [⟨m.key, ⟨m.claimID, m.slotName, false, false, false, false, []⟩, runJob m⟩] })

/-- the slot and the claim the activation went to -/
def noteStarted (slotName claimID : String) (ri : RunInfo) : RunInfo :=
  { ri with slotName := slotName, claimID := if claimID ≠ "" then claimID else ri.claimID }

def handleStarted (cfg : SchedConfig E) (core : Core) (k : JobKey) (slotName claimID : String) : Handler E :=
  let core' := core.mapRuns fun k' ri => if k' = k then noteStarted slotName claimID ri else ri
  let claim : String := match core'.running.lookup k with
    | some ri => ri.claimID
    | none => claimID
  let reconnect : Bool := match core'.running.lookup k with
    | some ri => ri.reconnect
    | none => false
  (core', do
    let now ← Go.clock
    let ok ← Queue.modify k (startedAd cfg slotName claim now)
    if ¬ ok ∨ reconnect = true then pure {}
    else do
      let logged ← logJob cfg k fun ad =>
        let host := match ad.evaluateAttrString .startdIpAddr with
          | some sinful => if sinful ≠ "" then sinful else slotName
          | none => slotName
        .execute ad host slotName
      pure { ulog := logged })

/-- `requeueToIdle`: a Running job goes back to Idle -/
def requeueToIdle (k : JobKey) : Go E Unit := do
  let status ← Queue.jobStatus k
  if status ≠ statusRunning then pure ()
  else do
    let now ← Go.clock
    let _ ← Queue.modify k (requeuedAd now)
    pure ()

/-- `jobFailed`: requeue, or hold when the failure budget is used up -/
def jobFailed (cfg : SchedConfig E) (k : JobKey) (why : String) (count : Bool) : Go E (List (ULog E)) := do
  let status ← Queue.jobStatus k
  if status ≠ statusRunning then pure []
  else do
    let now ← Go.clock
    match ← Go.get k with
    | none => logJob cfg k fun ad => .evicted ad why
    | some ad =>
      let _ ← Go.put k (failedAd cfg why count now ad)
      logJob cfg k fun logged =>
        if exhausted cfg count now ad then
          .held logged (failedReason (failures count now ad) why) holdCodeShadowException 0
        else .evicted logged why

/-- `holdOnExit` -/
def holdOnExit (cfg : SchedConfig E) (k : JobKey) (d : Policy.Decision) (now : ℤ) : Go E (List (ULog E)) := do
  let reason := if d.reason = "" then "Job held by policy on exit" else d.reason
  let code := if d.holdCode = 0 then Policy.holdCodeJobPolicy else d.holdCode
  let _ ← Queue.modify k (heldOnExitAd reason code d.holdSubCode now)
  logJob cfg k fun ad => .held ad reason code d.holdSubCode

/-- `requeueOnExit` -/
def requeueOnExit (cfg : SchedConfig E) (k : JobKey) (now : ℤ) (reason : String) : Go E (List (ULog E)) := do
  let _ ← Queue.modify k fun ad => moveTo ad statusRunning statusIdle now
  logJob cfg k fun ad => .evicted ad (if reason = "" then "Job requeued (OnExitRemove is false)" else reason)

/-- what the on-exit policy decides about the job as it now is -/
def exitDecision (cfg : SchedConfig E) (k : JobKey) (now : ℤ) : Go E Policy.Decision := do
  match ← Go.get k with
  | none => pure ⟨.complete, "", 0, 0, ""⟩
  | some ad => pure (Policy.analyze (ad.setInt .currentTime now) .periodicThenExit cfg.sysPolicy statusRunning)

/-- the job-terminated record -/
def terminatedLog (res : RunResult) (ad : Ad E) : ULog E :=
  match res.exitCode, res.termSignal with
  | some code, _ => .terminated ad false code
  | none, some sig => .terminated ad true sig
  | none, none => .terminated ad false 0

/-- the rest of `handleExited` for a run that delivered a result -/
def exitJob (cfg : SchedConfig E) (k : JobKey) (res : RunResult) : Go E (List (ULog E)) := do
  let now ← Go.clock
  let _ ← Queue.modify k (exitedAd res now)
  let d ← exitDecision cfg k now
  match d.action with
  | .hold => holdOnExit cfg k d now
  | .requeue => requeueOnExit cfg k now d.reason
  | .remove =>
    Go.submit (.evPolicyRemove k d.reason)
    pure []
  | _ =>
    let logged ← logJob cfg k (terminatedLog res)
    Queue.complete k
    pure logged

def errText : Option RunErr → String
  | none => ""
  | some .detached => "shadow detached for reconnect"
  | some (.other msg) => msg

/-- the registry without the run of `k`, and the channels that close when its handler ends -/
def reap (core : Core) (k : JobKey) : Core × List ℕ :=
  let waiters := match core.running.lookup k with
    | some ri => ri.waiters
    | none => []
  let r := (core.drop k).maybeFinishDrain
  (r.1, r.2 ++ waiters)

/-- the run is gone for a reason that leaves the job to others -/
def abandoned (core : Core) (k : JobKey) : Bool :=
  match core.running.lookup k with
  | some ri => ri.detached || ri.vacated
  | none => false

def handleExited (cfg : SchedConfig E) (core : Core) (k : JobKey) (res : Option RunResult) (err : Option RunErr) :
    Handler E :=
  let r := reap core k
  (r.1,
    if abandoned core k ∨ err = some .detached then pure { close := r.2 }
    else do
      let logged ← match res with
        | none => jobFailed cfg k (errText err) true
        | some res => exitJob cfg k res
      pure { close := r.2, ulog := logged })

def handleFailed (cfg : SchedConfig E) (core : Core) (k : JobKey) (err : RunErr) (panicked : Bool) : Handler E :=
  let r := reap core k
  (r.1,
    if abandoned core k ∨ err = .detached then pure { close := r.2 }
    else do
      let logged ← jobFailed cfg k (errText (some err)) panicked
      pure { close := r.2, ulog := logged })

/-- the run of `k` is vacated: marked and cancelled -/
def vacateRun (ri : RunInfo) : RunInfo := { ri with vacated := true, cancelled := true }

def handleTeardown (core : Core) (k : JobKey) (done : Option ℕ) : Handler E :=
  if k ∈ core.running then
    (core.mapRuns fun k' ri =>
      if k' = k then { vacateRun ri with waiters := ri.waiters ++ done.toList } else ri, pure {})
  else (core, pure { close := done.toList })

/-- `requeueToIdle` of several jobs -/
def requeueAll : List JobKey → Go E Unit
  | [] => pure ()
  | k :: ks => do
    requeueToIdle k
    requeueAll ks

/-- the keys of the runs `p` selects -/
def runsWhere (core : Core) (p : RunInfo → Bool) : List JobKey :=
  core.running.keys.filter fun k => (core.running.lookup k).any p

def handleDrain (cfg : SchedConfig E) (core : Core) (done : ℕ) : Handler E :=
  let core := { core with draining := true }
  if core.running.keys = [] then (core, pure { close := [done] })
  else
    let core' := { core with drainDone := some done }
    if cfg.reconnectDisabled then
      (core'.mapRuns fun _ ri => vacateRun ri, do
        requeueAll (runsWhere core fun ri => !ri.vacated)
        pure {})
    else
      (core'.mapRuns fun _ ri =>
        if ri.vacated || ri.detached then ri else { ri with detached := true, cancelled := true }, pure {})

/-- the loop of `handleRecover`: the Running jobs to re-attach to; the others go back to Idle -/
def recoverLoop (cfg : SchedConfig E) (core : Core) (now : ℤ) : List (Ad E) → Go E (List (NewRun E) × List (ULog E))
  | [] => pure ([], [])
  | ad :: ads => do
    let k : JobKey := ⟨ad.int0 .clusterId, ad.int0 .procId⟩
    if ad.int0 .jobStatus ≠ statusRunning ∨ k ∈ core.running then recoverLoop cfg core now ads
    else do
      let claimID := (ad.evaluateAttrString .claimId).getD ""
      let slotName := (ad.evaluateAttrString .remoteHost).getD ""
      if claimID = "" ∨ ¬ leaseAlive ad now then do
        requeueToIdle k
        recoverLoop cfg core now ads
      else do
        let rest ← recoverLoop cfg core now ads
        let startdAddr := (ad.evaluateAttrString .startdIpAddr).getD ""
        pure (⟨k, ⟨claimID, slotName, false, false, false, true, []⟩, reconnectJob cfg k claimID ad⟩ :: rest.1,
          (if cfg.userlog then
            [.disconnected ad "Connection to starter lost (schedd restarted)" slotName startdAddr] else []) ++ rest.2)

def handleRecover (cfg : SchedConfig E) (core : Core) (done : Option ℕ) : Handler E :=
  (core,
    if core.draining then pure { close := done.toList }
    else do
      let now ← Go.clock
      let ads ← Go.scan
      let r ← recoverLoop cfg core now ads
      pure { runs := r.1, close := done.toList, ulog := r.2 })

def handleReconnectFailed (cfg : SchedConfig E) (core : Core) (k : JobKey) (err : String) : Handler E :=
  let r := reap core k
  (r.1,
    if abandoned core k then pure { close := r.2 }
    else do
      let failed ← logJob cfg k fun ad => .reconnectFailed ad err ((ad.evaluateAttrString .remoteHost).getD "")
      let logged ← jobFailed cfg k ("reconnect failed: " ++ err) false
      pure { close := r.2, ulog := failed ++ logged })

/-- `policyApplicable` -/
def policyApplicable (kind : ActionKind) (status : ℤ) : Bool :=
  match kind with
  | .remove => status ≠ 0 && status ≠ statusRemoved
  | .hold => status = statusIdle || status = statusRunning
  | .release => status = statusHeld
  | .removeX => false

def handlePolicyAction (core : Core) (k : JobKey) (req : ActionRequest) : Handler E :=
  (core,
    if k ∈ core.policyPending then pure {}
    else do
      let status ← Queue.jobStatus k
      if policyApplicable req.kind status then pure { policy := some (k, req) } else pure {})

/-- `policyActor` -/
def policyActor : String := "condor_schedd"

/-- the lease renewal of every live run -/
def renewAll (now : ℤ) : List JobKey → Go E Unit
  | [] => pure ()
  | k :: ks => do
    let status ← Queue.jobStatus k
    if status = statusRunning then do
      let _ ← Queue.modify k fun ad => ad.setInt .lastJobLeaseRenewal now
      renewAll now ks
    else renewAll now ks

/-- the run that holds an expired claim, among those not vacated so far -/
def expiredRun (cfg : SchedConfig E) (core : Core) (gone : List JobKey) (publicID : String) : Option JobKey :=
  (runsWhere core fun ri => !ri.vacated && cfg.publicID ri.claimID = publicID).find? fun k => k ∉ gone

/-- the second half of `sweepExpired`: the runs whose claims have expired, their jobs back to Idle -/
def expireAll (cfg : SchedConfig E) (core : Core) (gone : List JobKey) : List String → Go E (List JobKey)
  | [] => pure gone
  | rec :: recs =>
    match expiredRun cfg core gone rec with
    | none => expireAll cfg core gone recs
    | some k => do
      requeueToIdle k
      expireAll cfg core (k :: gone) recs

def sweepExpired (cfg : SchedConfig E) (core : Core) : Handler E :=
  (core, do
    let now ← Go.clock
    renewAll now (runsWhere core fun ri => !(ri.vacated || ri.detached))
    let expired ← Go.expireSweep
    let gone ← expireAll cfg core [] expired
    pure { vacate := gone })

/-- `handle` -/
def handle (cfg : SchedConfig E) (core : Core) : Event → Handler E
  | .evMatch m => handleMatch core m
  | .evStarted k slotName claimID => handleStarted cfg core k slotName claimID
  | .evExited k res err => handleExited cfg core k res err
  | .evFailed k err panicked _ _ => handleFailed cfg core k err panicked
  | .evReschedule => (core, pure {})
  | .evTeardown k done => handleTeardown core k done
  | .evDrain done => handleDrain cfg core done
  | .evReconnectFailed k _ err => handleReconnectFailed cfg core k err
  | .evRecover done => handleRecover cfg core done
  | .evPolicyRemove k reason => handlePolicyAction core k ⟨.remove, policyActor, reason, 0, 0, true⟩
  | .evPolicyHold k reason code sub => handlePolicyAction core k ⟨.hold, policyActor, reason, code, sub, true⟩
  | .evPolicyRelease k reason => handlePolicyAction core k ⟨.release, policyActor, reason, 0, 0, true⟩
  | .evPolicyDone k => ({ core with policyPending := core.policyPending.filter (· ≠ k) }, pure {})

/-! ## The registry when an event is taken -/

theorem mem_runsWhere {core : Core} {p : RunInfo → Bool} :
    k ∈ runsWhere core p ↔ ∃ ri, core.running.lookup k = some ri ∧ p ri = true := by
  simp only [runsWhere, List.mem_filter, Option.any_eq_true]
  constructor
  · exact fun h => h.2
  · rintro ⟨ri, hl, hp⟩
    exact ⟨AList.mem_keys.2 ((KeyMap.mem_iff_lookup _ _).2 ⟨ri, hl⟩), ri, hl, hp⟩

omit [ClassAdLib E] in
/-- the run of an expired claim is not vacated -/
theorem expiredRun_some {cfg : SchedConfig E} {core : Core} {gone : List JobKey} {publicID : String}
    (h : expiredRun cfg core gone publicID = some k) : ∃ ri, core.running.lookup k = some ri ∧ ri.vacated = false := by
  obtain ⟨ri, hl, hp⟩ := mem_runsWhere.1 (List.mem_of_find?_eq_some h)
  simp only [Bool.and_eq_true, Bool.not_eq_true'] at hp
  exact ⟨ri, hl, hp.1⟩

theorem reap_registry (core : Core) (k : JobKey) :
    (∀ k', k' ∈ (reap core k).1.running ↔ k' ≠ k ∧ k' ∈ core.running) ∧
      (reap core k).1.policyPending = core.policyPending := by
  have h := (core.drop k).maybeFinishDrain_running
  refine ⟨fun k' => ?_, h.2.trans (core.drop_pending k)⟩
  simp only [reap, h.1]
  exact Core.mem_drop

variable (cfg : SchedConfig E)

/-- taking an event adds nothing, and a terminal event removes its run at once -/
theorem handle_registry (core : Core) (ev : Event) :
    (∀ k ∈ (handle cfg core ev).1.running, k ∈ core.running ∧ ev.terminalFor k = false) ∧
      ∀ k ∈ (handle cfg core ev).1.policyPending, k ∈ core.policyPending ∧ ev.policyDoneFor k = false := by
  have hreap : ∀ k, (∀ k' ∈ (reap core k).1.running, k' ∈ core.running ∧ decide (k = k') = false) ∧
      ∀ k' ∈ (reap core k).1.policyPending, k' ∈ core.policyPending ∧ false = false := by
    intro k
    obtain ⟨h1, h2⟩ := reap_registry core k
    refine ⟨fun k' hk' => ?_, fun k' hk' => ⟨h2 ▸ hk', rfl⟩⟩
    obtain ⟨hne, hin⟩ := (h1 k').1 hk'
    exact ⟨hin, decide_eq_false fun h => hne h.symm⟩
  cases ev with
  | evExited k | evFailed k | evReconnectFailed k => exact hreap k
  | evMatch =>
    simp only [handle, handleMatch]
    split_ifs <;> exact ⟨fun k hk => ⟨hk, rfl⟩, fun k hk => ⟨hk, rfl⟩⟩
  | evStarted k =>
    exact ⟨fun k hk => ⟨Core.mem_mapRuns.1 hk, rfl⟩, fun k hk => ⟨hk, rfl⟩⟩
  | evTeardown k =>
    simp only [handle, handleTeardown]
    split_ifs
    · exact ⟨fun k hk => ⟨Core.mem_mapRuns.1 hk, rfl⟩, fun k hk => ⟨hk, rfl⟩⟩
    · exact ⟨fun k hk => ⟨hk, rfl⟩, fun k hk => ⟨hk, rfl⟩⟩
  | evDrain =>
    simp only [handle, handleDrain]
    split_ifs
    · exact ⟨fun k hk => ⟨hk, rfl⟩, fun k hk => ⟨hk, rfl⟩⟩
    · exact ⟨fun k hk => ⟨Core.mem_mapRuns.1 hk, rfl⟩, fun k hk => ⟨hk, rfl⟩⟩
    · exact ⟨fun k hk => ⟨Core.mem_mapRuns.1 hk, rfl⟩, fun k hk => ⟨hk, rfl⟩⟩
  | evPolicyDone =>
    refine ⟨fun k' hk' => ⟨hk', rfl⟩, fun k' hk' => ?_⟩
    obtain ⟨hin, hne⟩ := List.mem_filter.1 hk'
    exact ⟨hin, decide_eq_false fun h => (of_decide_eq_true hne) h.symm⟩
  | evReschedule | evRecover done | evPolicyRemove k reason | evPolicyHold k reason code sub
  | evPolicyRelease k reason => exact ⟨fun k hk => ⟨hk, rfl⟩, fun k hk => ⟨hk, rfl⟩⟩

/-! ## The runs that start when a handler ends -/

/-- `p` is the goroutine of a run of `k` -/
def IsRun (cfg : SchedConfig E) (k : JobKey) (p : Go E (ℤ × List (ULog E))) : Prop :=
  (∃ m : Match, m.key = k ∧ p = runJob m) ∨ ∃ claimID job, p = reconnectJob cfg k claimID job

def StartsRuns (cfg : SchedConfig E) (fin : Finish E) : Prop := ∀ r ∈ fin.runs, IsRun cfg r.key r.prog

/-- a reconnect that a recovery starts, for an ad it found Running -/
structure Recovered (cfg : SchedConfig E) (core : Core) (ad : Ad E) (r : NewRun E) : Prop where
  status : ad.int0 .jobStatus = statusRunning
  key : r.key = ⟨ad.int0 .clusterId, ad.int0 .procId⟩
  out : r.key ∉ core.running
  run : ∃ claimID slotName, r.info = ⟨claimID, slotName, false, false, false, true, []⟩ ∧
    r.prog = reconnectJob cfg r.key claimID ad

/-- a run that the handler of an event starts -/
inductive Begun (cfg : SchedConfig E) (core : Core) : Event → NewRun E → Prop where
  | matched (m : Match) (hproc : 0 ≤ m.key.proc) (hclaim : m.claimID ≠ "") (hout : m.key ∉ core.running)
      (hdrain : core.draining = false) :
      Begun cfg core (.evMatch m) ⟨m.key, ⟨m.claimID, m.slotName, false, false, false, false, []⟩, runJob m⟩
  | recovered (done : Option ℕ) (ad : Ad E) (r : NewRun E) (h : Recovered cfg core ad r)
      (hdrain : core.draining = false) : Begun cfg core (.evRecover done) r

open Prog

theorem recoverLoop_recovered (core : Core) (now : ℤ) (ads : List (Ad E)) :
    Results (fun r => ∀ n ∈ r.1, ∃ ad ∈ ads, Recovered cfg core ad n) (recoverLoop cfg core now ads) := by
  induction ads with
  | nil => exact fun n hn => absurd hn List.not_mem_nil
  | cons ad ads ih =>
    have hskip : Results (fun r => ∀ n ∈ r.1, ∃ ad' ∈ ad :: ads, Recovered cfg core ad' n)
        (recoverLoop cfg core now ads) := by
      refine ih.mono fun r hr n hn => ?_
      obtain ⟨ad', hin, h⟩ := hr n hn
      exact ⟨ad', List.mem_cons_of_mem ad hin, h⟩
    unfold recoverLoop
    dsimp only
    by_cases hcond : ad.int0 .jobStatus ≠ statusRunning ∨ ⟨ad.int0 .clusterId, ad.int0 .procId⟩ ∈ core.running
    · rw [if_pos hcond]
      exact hskip
    · rw [if_neg hcond]
      push Not at hcond
      split_ifs
      · exact results_bind _ fun _ => hskip
      all_goals
        refine results_bind_of hskip fun rest hrest n hn => ?_
        rcases List.mem_cons.1 hn with rfl | hn
        · exact ⟨ad, List.mem_cons_self, hcond.1, rfl, hcond.2, _, _, rfl, rfl⟩
        · exact hrest n hn

/-- **The runs a handler starts** are of the match it took, or of a recovery. -/
theorem handle_begun (core : Core) (ev : Event) :
    Results (fun fin => ∀ r ∈ fin.runs, Begun cfg core ev r) (handle cfg core ev).2 := by
  have hnil : ∀ r ∈ ([] : List (NewRun E)), Begun cfg core ev r := fun r hr => absurd hr List.not_mem_nil
  cases ev with
  | evMatch m =>
    simp only [handle, handleMatch]
    split_ifs with h
    · exact hnil
    · refine results_bind _ fun status => ?_
      split_ifs
      · exact hnil
      · refine results_bind _ fun job => ?_
        cases job with
        | none => exact hnil
        | some =>
          push Not at h
          intro r hr
          obtain rfl := List.mem_singleton.1 hr
          exact .matched m h.2.2.1 h.2.2.2.1 h.2.2.2.2 (Bool.eq_false_iff.2 h.1)
  | evStarted =>
    refine results_bind _ fun now => results_bind _ fun ok => ?_
    split_ifs
    · exact hnil
    · exact results_bind _ fun _ => hnil
  | evExited k res =>
    simp only [handle, handleExited]
    split_ifs
    · exact hnil
    · cases res <;> exact results_bind _ fun _ => hnil
  | evFailed =>
    simp only [handle, handleFailed]
    split_ifs
    · exact hnil
    · exact results_bind _ fun _ => hnil
  | evReschedule | evPolicyDone => exact hnil
  | evTeardown =>
    simp only [handle, handleTeardown]
    split_ifs <;> exact hnil
  | evDrain =>
    simp only [handle, handleDrain]
    split_ifs
    · exact hnil
    · exact results_bind _ fun _ => hnil
    · exact hnil
  | evReconnectFailed =>
    simp only [handle, handleReconnectFailed]
    split_ifs
    · exact hnil
    · exact results_bind _ fun _ => results_bind _ fun _ => hnil
  | evRecover done =>
    simp only [handle, handleRecover]
    split_ifs with hd
    · exact hnil
    · refine results_bind _ fun now => results_bind _ fun ads => ?_
      refine results_bind_of (recoverLoop_recovered cfg core now ads) fun out hout r hr => ?_
      obtain ⟨ad, -, h⟩ := hout r hr
      exact .recovered done ad r h (Bool.eq_false_iff.2 hd)
  | evPolicyRemove | evPolicyHold | evPolicyRelease =>
    simp only [handle, handlePolicyAction]
    split_ifs
    · exact hnil
    · refine results_bind _ fun status => ?_
      split_ifs <;> exact hnil

theorem handle_runs (core : Core) (ev : Event) : Results (StartsRuns cfg) (handle cfg core ev).2 := by
  refine (handle_begun cfg core ev).mono fun fin hfin r hr => ?_
  cases hfin r hr with
  | matched m => exact .inl ⟨m, rfl, rfl⟩
  | recovered done ad r h =>
    obtain ⟨claimID, _, -, hprog⟩ := h.run
    exact .inr ⟨claimID, ad, hprog⟩

theorem sweepExpired_runs (core : Core) : Results (StartsRuns cfg) (sweepExpired cfg core).2 :=
  results_bind _ fun _ => results_bind _ fun _ => results_bind _ fun _ => results_bind _ fun _ =>
    fun _ hr => absurd hr List.not_mem_nil

end Sched

end AccessPoint
