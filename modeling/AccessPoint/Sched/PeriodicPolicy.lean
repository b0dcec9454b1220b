/-
The periodic policy evaluator (internal/sched/sched.go, `evaluatePeriodic` and `handlePolicyAction`).

On every tick each job is analysed on a copy with the current time, and a job for which an expression fires is handed to
the core as an event; the core checks the status of the job and hands the action to the queue. The first expression that
fires decides, so an action the queue refuses keeps the later expressions of the job from ever being looked at.
`Analyze` skips the release of a job held by a user (code 1) but not of one held for spooling (code 16), which the queue
does not release.

- `tick_decides`: the events of a tick are the decisions about the jobs of the queue, those passed over included.
- `policy_applies_iff`: which decisions are carried out.
- `spooled_job_stuck`: PeriodicRelease of a spooled job.
-/
import AccessPoint.Queue.ReadModifyWrite
import AccessPoint.Sched.Orderly
import AccessPoint.Sched.World

namespace AccessPoint

open ClassAdLib Policy

variable {E : Type} [ClassAdLib E]

namespace Sched

/-- `hasPeriodicExpr` -/
def hasPeriodicExpr (ad : Ad E) (state : ℤ) : Bool :=
  (ad.lookup .periodicRemove).isSome || (ad.lookup .periodicHold).isSome ||
    (state = statusHeld && (ad.lookup .periodicRelease).isSome)

/-- the request a decision becomes; `handle` makes the same of the event -/
def decisionRequest (d : Decision) : Option ActionRequest :=
  match d.action with
  | .remove => some ⟨.remove, policyActor, d.reason, 0, 0, true⟩
  | .hold => some ⟨.hold, policyActor, d.reason, d.holdCode, d.holdSubCode, true⟩
  | .release => some ⟨.release, policyActor, d.reason, 0, 0, true⟩
  | _ => none

/-- the event a decision about `k` is submitted as -/
def decisionEvent (k : JobKey) (d : Decision) : Option Event :=
  match d.action with
  | .remove => some (.evPolicyRemove k d.reason)
  | .hold => some (.evPolicyHold k d.reason d.holdCode d.holdSubCode)
  | .release => some (.evPolicyRelease k d.reason)
  | _ => none

/-- `evaluatePeriodic` for one job -/
def evaluateJob (sys : Option (System E)) (now : ℤ) (shared : Ad E) : Option Event :=
  let state := shared.int0 .jobStatus
  if System.empty sys ∧ ¬ hasPeriodicExpr shared state then none
  else
    let ad := shared.setInt .currentTime now
    decisionEvent ⟨ad.int0 .clusterId, ad.int0 .procId⟩ (analyze ad .periodicOnly sys state)

/-- `evaluatePeriodic`: the events of one tick -/
def evaluatePeriodic (sys : Option (System E)) (now : ℤ) (s : Store E) : List Event :=
  s.scan.filterMap (evaluateJob sys now)

/-- the core treats the event of a decision as the request of that decision -/
theorem handle_decisionEvent (cfg : SchedConfig E) (core : Core) (k : JobKey) (d : Decision) {ev : Event}
    (h : decisionEvent k d = some ev) :
    ∃ req, decisionRequest d = some req ∧ handle cfg core ev = handlePolicyAction core k req := by
  unfold decisionEvent at h
  unfold decisionRequest
  cases hd : d.action <;> rw [hd] at h <;> cases h <;> exact ⟨_, rfl, rfl⟩

/-! ## Which expression decides -/

/-- where a decision of the periodic chain comes from -/
inductive Decided (ad : Ad E) (sys : Option (System E)) (state : ℤ) (d : Decision) : Prop where
  | stay (h : d.action = .stay)
  | hold (h : d.action = .hold) (hstate : state ≠ statusHeld ∧ state ≠ statusCompleted)
  | release (h : d.action = .release) (hstate : state = statusHeld)
      (hcode : ad.int0 .holdReasonCode ≠ holdCodeUserRequest) (hfires : (checkRelease ad sys).isSome = true)
  | remove (h : d.action = .remove)

theorem analyze_decided (ad : Ad E) (sys : Option (System E)) {state : ℤ} (hstate : 0 ≤ state) :
    Decided ad sys state (analyze ad .periodicOnly sys state) := by
  unfold analyze
  dsimp only
  rw [if_neg (not_lt.2 hstate)]
  split_ifs
  · exact .stay rfl
  · cases hchain : analyzePeriodic ad sys state with
    | none => exact .stay rfl
    | some =>
      simp only [analyzePeriodic, Option.or_eq_some_iff] at hchain
      rcases hchain with hhold | ⟨-, hrelease | ⟨-, hremove⟩⟩
      · split_ifs at hhold with hs
        exact .hold (checkHold_action hhold) hs
      · split_ifs at hrelease with hs
        exact .release (checkRelease_action hrelease) hs.1 hs.2 (by rw [hrelease]; rfl)
      · exact .remove (checkRemove_action hremove)

variable {sys : Option (System E)} {ad : Ad E}

/-- the release of a held job comes before its removal -/
theorem analyze_release (hcode : ad.int0 .holdReasonCode ≠ holdCodeUserRequest)
    {d : Decision} (hfires : checkRelease ad sys = some d) : analyze ad .periodicOnly sys statusHeld = d := by
  have hchain : analyzePeriodic ad sys statusHeld = some d := by
    simp [analyzePeriodic, hcode, hfires]
  unfold analyze
  dsimp only
  rw [if_neg (show ¬ statusHeld < 0 by decide), if_neg (by decide), hchain]

/-- what `CheckAction` answers about the job it reads -/
theorem checkAction_alone (q : Queue E) {k : JobKey} (hget : q.coll.get k = some ad) (req : ActionRequest)
    (env : ℕ → Choice) :
    (q.coll.alone env (q.checkAction k req)).1.1 = q.actionCode req (some ad) :=
  hget ▸ actOnJob_code q true q.coll k req false nofun

theorem decisionRequest_some {d : Decision} {req : ActionRequest} (h : decisionRequest d = some req) :
    req.system = true ∧ (d.action = .hold → req.kind = .hold) ∧ (d.action = .release → req.kind = .release) ∧
      (d.action = .remove → req.kind = .remove) ∧ d.action ≠ .stay := by
  unfold decisionRequest at h
  cases hd : d.action <;> rw [hd] at h <;> cases h <;> simp

/-- a job held for spooling whose release is asked for -/
def SpooledRelease (ad seen : Ad E) (sys : Option (System E)) : Prop :=
  ad.int0 .jobStatus = statusHeld ∧ ad.int0 .holdReasonCode = 16 ∧ seen.int0 .holdReasonCode ≠ holdCodeUserRequest ∧
    (checkRelease seen sys).isSome = true

/-- **When policy decisions can be carried out.** A job is Idle, Running or Held. Whatever the evaluator decides about
it, on the ad itself or on a copy with the current time, the core accepts and the queue would carry out, exactly when
the job is not Held for spooling with a release expression that fires. -/
theorem policy_applies_iff (q : Queue E) (k : JobKey) (ad : Ad E) (hget : q.coll.get k = some ad)
    (hstatus : ad.int0 .jobStatus ∈ [statusIdle, statusRunning, statusHeld]) (seen : Ad E) (sys : Option (System E)) :
    (∀ req, decisionRequest (analyze seen .periodicOnly sys (ad.int0 .jobStatus)) = some req → ∀ env : ℕ → Choice,
      policyApplicable req.kind (ad.int0 .jobStatus) = true ∧
        (q.coll.alone env (q.checkAction k req)).1.1 = arSuccess) ↔
      ¬ SpooledRelease ad seen sys := by
  constructor
  · -- the release is decided, and refused
    rintro hall ⟨hheld, hcode, hseen, hfires⟩
    obtain ⟨d, hd⟩ := Option.isSome_iff_exists.1 hfires
    have hact := checkRelease_action hd
    rw [hheld, analyze_release hseen hd] at hall
    have hreq : decisionRequest d = some ⟨.release, policyActor, d.reason, 0, 0, true⟩ := by
      simp [decisionRequest, hact]
    have hdone := (hall _ hreq fun _ => smooth).2
    rw [checkAction_alone q hget] at hdone
    simp [Queue.actionCode, Queue.mayAct, hheld, hcode, arBadStatus, arSuccess] at hdone
  intro hspool req hreq env
  obtain ⟨hsys, hhold, hrelease, hremove, hstay⟩ := decisionRequest_some hreq
  rw [checkAction_alone q hget req env]
  simp only [Queue.actionCode, Queue.mayAct, hsys, Bool.true_or, not_true_eq_false, if_false]
  simp only [List.mem_cons, List.not_mem_nil, or_false] at hstatus
  have hnonneg : 0 ≤ ad.int0 .jobStatus := by
    rcases hstatus with h | h | h <;> rw [h] <;> decide
  have hlive : ad.int0 .jobStatus ≠ statusRemoved ∧ ad.int0 .jobStatus ≠ statusCompleted ∧ ad.int0 .jobStatus ≠ 0 := by
    rcases hstatus with h | h | h <;> rw [h] <;> decide
  cases analyze_decided seen sys hnonneg with
  | stay h => exact absurd h hstay
  | hold h hstate =>
    rw [hhold h]
    have hrunnable : ad.int0 .jobStatus = statusIdle ∨ ad.int0 .jobStatus = statusRunning := by
      rcases hstatus with h | h | h
      · exact .inl h
      · exact .inr h
      · exact absurd h hstate.1
    simp [policyApplicable, hstate.1, hlive.1, hlive.2.1, hrunnable]
  | release h hstate hseen hfires =>
    rw [hrelease h]
    have hcode : ad.int0 .holdReasonCode ≠ 16 := fun hcode => hspool ⟨hstate, hcode, hseen, hfires⟩
    simp [policyApplicable, hstate, hcode]
  | remove h =>
    rw [hremove h]
    simp [policyApplicable, hlive.1, hlive.2.2]

/-! ## Jobs that are passed over -/

/-- nothing fires for a job the evaluator passes over -/
theorem analyze_passed (hsys : System.empty sys = true) {state : ℤ} (hstate : 0 ≤ state)
    (hnone : hasPeriodicExpr ad state = false) : analyze ad .periodicOnly sys state = stay := by
  simp only [hasPeriodicExpr, Ad.lookup_eq, Bool.or_eq_false_iff, Option.isSome_eq_false_iff, Option.isNone_iff_eq_none,
    Bool.and_eq_false_iff, decide_eq_false_iff_not] at hnone
  obtain ⟨⟨hremove, hhold⟩, hrelease⟩ := hnone
  have hexprs : ∀ s ∈ sys, s.holdExpr = none ∧ s.releaseExpr = none ∧ s.removeExpr = none := by
    rintro s rfl
    simpa [System.empty, and_assoc] using hsys
  have hcheckHold : checkHold ad sys = none := check_absent hhold fun s hs => (hexprs s hs).1
  have hcheckRemove : checkRemove ad sys = none := check_absent hremove fun s hs => (hexprs s hs).2.2
  have hchain : analyzePeriodic ad sys state = none := by
    simp only [analyzePeriodic, hcheckHold, hcheckRemove, ite_self, Option.none_or, Option.or_none]
    split_ifs with hheld
    · exact check_absent (hrelease.resolve_left (not_not.2 hheld.1)) fun s hs => (hexprs s hs).2.1
    · rfl
  unfold analyze
  dsimp only
  rw [if_neg (not_lt.2 hstate), hchain]
  exact ite_self _

/-- **A tick asks for what the policy decides.** On a queue whose jobs carry their ids and no negative status, the
events of a tick are those of every job analysed, in the order of the scan, though jobs without an expression are passed
over; and the core takes each of them as the request of the decision about the job it names. -/
theorem tick_decides (cfg : SchedConfig E) (core : Core) (sys : Option (System E)) (now : ℤ) (s : Store E)
    (hkeyed : s.Keyed)
    (hstatus : ∀ ad ∈ s.scan, 0 ≤ ad.int0 .jobStatus) :
    let decision := fun ad : Ad E => analyze (ad.setInt .currentTime now) .periodicOnly sys (ad.int0 .jobStatus)
    evaluatePeriodic sys now s =
        s.scan.filterMap (fun ad => decisionEvent ⟨ad.int0 .clusterId, ad.int0 .procId⟩ (decision ad)) ∧
      ∀ ev ∈ evaluatePeriodic sys now s, ∃ k ad req, 0 ≤ k.proc ∧ s.get k = some ad ∧
        decisionRequest (decision ad) = some req ∧ handle cfg core ev = handlePolicyAction core k req := by
  intro decision
  have hids : ∀ k ad, 0 ≤ k.proc → s.get k = some ad → ∀ a ∈ [ad, ad.setInt .currentTime now],
      (⟨a.int0 .clusterId, a.int0 .procId⟩ : JobKey) = k := by
    intro k ad hk hget a ha
    obtain ⟨own, hl, rfl⟩ := Store.get_eq_some.1 hget
    obtain ⟨hc, hp⟩ := (hkeyed k own hl).chainTo (s.parentAd k) hk
    rcases List.mem_cons.1 ha with rfl | ha
    · rw [Ad.int0_lit hc, Ad.int0_lit hp]
    · rw [List.mem_singleton.1 ha, Ad.int0_lit (by rw [Ad.setInt_apply, if_neg (by decide)]; exact hc),
        Ad.int0_lit (by rw [Ad.setInt_apply, if_neg (by decide)]; exact hp)]
  have hplain : evaluatePeriodic sys now s =
      s.scan.filterMap fun ad => decisionEvent ⟨ad.int0 .clusterId, ad.int0 .procId⟩ (decision ad) := by
    refine List.filterMap_congr fun ad hin => ?_
    obtain ⟨k, hk, hget⟩ := Store.mem_scan.1 hin
    unfold evaluateJob
    dsimp only
    split_ifs with hpassed
    · -- the time is not one of the expressions
      have hnone : hasPeriodicExpr (ad.setInt .currentTime now) (ad.int0 .jobStatus) = false :=
        Bool.eq_false_iff.2 hpassed.2
      have hstay : decision ad = stay := analyze_passed hpassed.1 (hstatus ad hin) hnone
      rw [hstay]
      rfl
    · rw [hids k ad hk hget _ (List.mem_cons_of_mem _ List.mem_cons_self), hids k ad hk hget _ List.mem_cons_self]
  refine ⟨hplain, fun ev hev => ?_⟩
  rw [hplain] at hev
  obtain ⟨ad, hin, hev⟩ := List.mem_filterMap.1 hev
  obtain ⟨k, hk, hget⟩ := Store.mem_scan.1 hin
  rw [hids k ad hk hget _ List.mem_cons_self] at hev
  obtain ⟨req, hreq, hhandle⟩ := handle_decisionEvent cfg core k _ hev
  exact ⟨k, ad, req, hk, hget, hreq, hhandle⟩

/-- alice submits two jobs, one of which is to be held -/
def twoJobs : Queue Value :=
  (Sys.run (Sys.init poolOptions) [.begin 0 "alice@pool", .request 0 (.newCluster none), .request 0 (.newProc 1),
    .request 0 (.newProc 1), .request 0 (.setAttribute ⟨1, 1⟩ "PeriodicHold" "true"), .commit 0 100 none]).q

/-- with no system policy the job without an expression is passed over, and the other is held -/
theorem alice_held_by_tick :
    twoJobs.coll.scan.map (fun ad => hasPeriodicExpr ad statusIdle) = [true, false] ∧
      (evaluatePeriodic none 400 twoJobs.coll).length = 1 ∧
      ∀ ev ∈ evaluatePeriodic none 400 twoJobs.coll, ∃ k req, handle poolSched (World.start twoJobs).core ev =
        handlePolicyAction (World.start twoJobs).core k req := by
  have hreach : Sys.Reachable twoJobs := ⟨_, _, rfl⟩
  refine ⟨by decide +kernel, by decide +kernel, fun ev hev => ?_⟩
  obtain ⟨k, -, req, -, -, -, hhandle⟩ :=
    (tick_decides poolSched (World.start twoJobs).core none 400 twoJobs.coll
      (fun k ad h => Sys.reachable_wellKeyed hreach h) (by decide +kernel)).2 ev hev
  exact ⟨k, req, hhandle⟩

/-! ## A spooled job -/

/-- alice's job, Held with the given code, with a release and a removal expression that are true -/
def heldAd (code : ℤ) : Ad Value :=
  let held := (((aliceQueue.coll.get ⟨1, 0⟩).getD Ad.empty).setInt .jobStatus statusHeld).setInt .holdReasonCode code
  (held.set .periodicRelease (.bool true)).set .periodicRemove (.bool true)

def heldQueue (code : ℤ) : Queue Value := { aliceQueue with coll := aliceQueue.coll.put ⟨1, 0⟩ (heldAd code) }

/-- the decision about alice's job at time 400 -/
def heldDecision (code : ℤ) : Option Decision :=
  ((heldQueue code).coll.get ⟨1, 0⟩).map fun ad => analyze (ad.setInt .currentTime 400) .periodicOnly none statusHeld

def releaseRequest : ActionRequest :=
  ⟨.release, policyActor, "The job attribute PeriodicRelease expression evaluated to TRUE", 0, 0, true⟩

/-- a job held by the system (26) is released -/
theorem held_job_released :
    let ad := (heldAd 26).chainTo ((heldQueue 26).coll.parentAd ⟨1, 0⟩)
    policyApplicable .release (ad.int0 .jobStatus) = true ∧
      ((heldQueue 26).coll.alone (fun _ => smooth) ((heldQueue 26).checkAction ⟨1, 0⟩ releaseRequest)).1.1 =
        arSuccess := by
  intro ad
  have hown : (heldQueue 26).coll.lookup ⟨1, 0⟩ = some (heldAd 26) := (Store.lookup_put _ _ _ _).trans (if_pos rfl)
  exact (policy_applies_iff (heldQueue 26) ⟨1, 0⟩ ad (Store.get_of_lookup hown) (by decide +kernel)
    (ad.setInt .currentTime 400) none).2 (fun h => absurd h.2.1 (by decide +kernel)) releaseRequest
    (by decide +kernel) fun _ => smooth

/-- **A spooled job is stuck.** Its release is selected on every tick and refused by the queue; its removal, which the
queue would carry out, is never looked at. -/
theorem spooled_job_stuck :
    (heldDecision 16).bind decisionRequest = some releaseRequest ∧ policyApplicable .release statusHeld = true ∧
      ((heldQueue 16).coll.alone (fun _ => smooth) ((heldQueue 16).checkAction ⟨1, 0⟩ releaseRequest)).1.1 =
        arBadStatus ∧
      ((heldQueue 16).coll.alone (fun _ => smooth)
        ((heldQueue 16).checkAction ⟨1, 0⟩ { releaseRequest with kind := .remove })).1.1 = arSuccess := by
  decide +kernel

end Sched

end AccessPoint
