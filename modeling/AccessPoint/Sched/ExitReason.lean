/-
Why a job exited (internal/sched/sched.go, `handleExited`; shadow/syscalls.go, job_exit; internal/policy/policy.go,
`Analyze`).

The starter reports a wait status and a reason, which says whether the job ended on its own or was killed. The shadow
carries both to the core; the core records the status in the ad, asks the on-exit policy, and looks at the reason
nowhere. A job that was evicted is archived as Completed unless one of its policy expressions, or the pool's, stops
that.

- `exit_policy_keeps_iff`: the decisions that do not complete the job.
- `completed_only_if_ended_iff`: a job is archived as Completed only if it ended, exactly when its result says it ended
  on its own or its policy fires.
- `killed_job_completed`: a job killed on its machine is archived as Completed.
-/
import AccessPoint.Sched.ExitReceived
import AccessPoint.Sched.Rewrites

namespace AccessPoint

open ClassAdLib Policy Shadow

/-- the job ended on its own: it exited, or died on a signal and left a core -/
def Shadow.endedOnItsOwn (res : RunResult) : Bool :=
  exitedNormally res || (res.reason = jobCoredumped && res.termSignal.isSome)

section

variable {E : Type} [ClassAdLib E]

namespace Sched

/-- an expression of the job or of the pool keeps an exiting job from completing -/
def exitPolicyFires (sys : Option (System E)) (ad : Ad E) : Bool :=
  (checkHold ad sys).isSome || (checkRemove ad sys).isSome || fires ad .onExitHold || onExitRemoveIsFalse ad

variable (ad : Ad E) (sys : Option (System E))

/-- the chain for a job that runs: the periodic hold and removal, then the pair of the exit -/
theorem analyze_exit :
    analyze ad .periodicThenExit sys statusRunning =
      ((checkHold ad sys).or (checkRemove ad sys)).getD (analyzeExit ad) := by
  have hchain : analyzePeriodic ad sys statusRunning = (checkHold ad sys).or (checkRemove ad sys) := by
    have hrun : statusRunning ≠ statusHeld ∧ statusRunning ≠ statusCompleted := by decide
    simp [analyzePeriodic, hrun]
  have hstate : ¬ statusRunning < 0 ∧ statusRunning ≠ statusRemoved := by decide
  simp only [analyze, hstate.1, hstate.2, if_false, hchain]
  cases (checkHold ad sys).or (checkRemove ad sys) <;> rfl

theorem analyzeExit_keeps_iff :
    (analyzeExit ad).action ∈ [.hold, .requeue, .remove] ↔ fires ad .onExitHold = true ∨
      onExitRemoveIsFalse ad = true := by
  unfold analyzeExit
  split_ifs with hhold hremove
  · simp [hhold]
  · simp [hremove]
  · simp [hhold, hremove]

/-- **Which decisions keep the job.** It is held, requeued or removed exactly when one of the expressions says so. -/
theorem exit_policy_keeps_iff :
    (analyze ad .periodicThenExit sys statusRunning).action ∈ [.hold, .requeue, .remove] ↔
      exitPolicyFires sys ad = true := by
  rw [analyze_exit]
  cases hhold : checkHold ad sys with
  | some => simp [exitPolicyFires, hhold, checkHold_action hhold]
  | none =>
    cases hremove : checkRemove ad sys with
    | some => simp [exitPolicyFires, hhold, hremove, checkRemove_action hremove]
    | none =>
      have hexit := analyzeExit_keeps_iff ad
      simpa [exitPolicyFires, hhold, hremove] using hexit

/-- the ad of a job as the on-exit policy sees it at time `now` -/
def exitView (s : Store E) (k : JobKey) (res : RunResult) (ad : Ad E) (now : ℤ) : Ad E :=
  ((exitedAd res now ad).chainTo (s.parentAd k)).setInt .currentTime now

end Sched

namespace World

/-- what becomes of a job whose result is `res`: it is archived only if it ended on its own, and else it is in the live
queue, held, Idle again or handed to the removal -/
def EndedOrKept (k : JobKey) (res : RunResult) (q : Queue E) (rest : List Event) (w' : World E) : Prop :=
  (w'.q.hist ≠ q.hist → Shadow.endedOnItsOwn res = true) ∧
    (Shadow.endedOnItsOwn res = false → ∃ ad', w'.q.coll.get k = some ad' ∧
      (ad'.int0 .jobStatus = statusHeld ∨ ad'.int0 .jobStatus = statusIdle ∨
        ∃ why, w'.events = rest ++ [.evPolicyRemove k why]))

/-- what the core makes of the exit of a job that did not end on its own accounts for it if the policy fires -/
theorem endedOrKept_iff {k : JobKey} {res : RunResult} {q : Queue E} {rest : List Event} {w' : World E}
    {d : Policy.Decision} (hhandled : Sched.ExitHandled k d (q, rest) w'.board)
    (hstays : d.action ∈ [.hold, .requeue, .remove] → Sched.Stays k (q, rest) w'.board)
    (hnot : Shadow.endedOnItsOwn res = false) :
    EndedOrKept k res q rest w' ↔ d.action ∈ [.hold, .requeue, .remove] := by
  constructor
  · -- any other decision archives the job
    rintro ⟨hhist, -⟩
    by_contra hkeeps
    have harchived : w'.q.hist = q.hist := by
      by_contra hne
      rw [hhist hne] at hnot
      cases hnot
    simp only [List.mem_cons, List.not_mem_nil, or_false, not_or] at hkeeps
    unfold Sched.ExitHandled at hhandled
    split at hhandled
    · exact hkeeps.1 ‹_›
    · exact hkeeps.2.1 ‹_›
    · exact hkeeps.2.2 ‹_›
    · obtain ⟨-, _, hadded, -⟩ := hhandled
      simpa using hadded.symm.trans harchived
  · intro hkeeps
    obtain ⟨hhist, hlive⟩ := hstays hkeeps
    refine ⟨fun hne => absurd hhist hne, fun _ => ?_⟩
    simp only [List.mem_cons, List.not_mem_nil, or_false] at hkeeps
    unfold Sched.ExitHandled at hhandled
    rcases hkeeps with haction | haction | haction <;> rw [haction] at hhandled
    · obtain ⟨ad', hget', hheld⟩ := hhandled
      exact ⟨ad', hget', .inl hheld⟩
    · obtain ⟨ad', hget', hidle⟩ := hhandled
      exact ⟨ad', hget', .inr (.inl hidle)⟩
    · obtain ⟨ad', hget'⟩ := Option.isSome_iff_exists.1 hlive
      exact ⟨ad', hget', .inr (.inr ⟨_, hhandled⟩)⟩

/-- **A job is archived as Completed only if it finished.** The core takes an exit with the reason the shadow made of
the starter's, of a run that was neither vacated nor detached, and works on it to its end. Whatever the clock reads,
what is archived ended on its own, and a job that did not is still in the live queue, held, Idle again or handed to the
removal: that is so exactly when the reason says the job ended on its own, or a policy expression fires on its ad at
every time. -/
theorem completed_only_if_ended_iff (cfg : SchedConfig E) (w : World E) (hb : w.busy = none) (k : JobKey) (status : ℕ)
    (reason : ℤ) (err : Option RunErr) (rest : List Event)
    (he : w.events = .evExited k (some ⟨status, Shadow.normalizeReason reason⟩) err :: rest)
    (hkept : Sched.abandoned w.core k = false) (herr : err ≠ some .detached) (hroom : rest.length < eventCap)
    (ad : Ad E) (hget : w.q.coll.get k = some ad) :
    (∀ w', Handles cfg w w' → EndedOrKept k ⟨status, Shadow.normalizeReason reason⟩ w.q rest w') ↔
      Shadow.endedOnItsOwn ⟨status, Shadow.normalizeReason reason⟩ = true ∨ ∀ now,
        Sched.exitPolicyFires cfg.sysPolicy
          (Sched.exitView w.q.coll k ⟨status, Shadow.normalizeReason reason⟩ ad now) = true := by
  generalize (⟨status, normalizeReason reason⟩ : RunResult) = res at he ⊢
  cases hended : endedOnItsOwn res with
  | true => exact ⟨fun _ => .inl rfl, fun _ _ _ => ⟨fun _ => hended, fun hnot => by rw [hended] at hnot; cases hnot⟩⟩
  | false =>
    simp only [Bool.false_eq_true, false_or, ← Sched.exit_policy_keeps_iff]
    constructor
    · -- the clock stands still at the time in question
      intro hall now
      obtain ⟨n, hidle⟩ := handles_exists cfg hb he ⟨now, true, false, [], .panicked "", .panicked "", .panicked ""⟩
      have hok : ∀ ch ∈ List.replicate n (⟨now, true, false, [], .panicked "", .panicked "", .panicked ""⟩ : Choice),
          ch.ok = true := fun ch hch => by rw [(List.mem_replicate.1 hch).2]
      obtain ⟨ch, hch, hhandled, hstays⟩ := handles_exit cfg hb he hkept herr hroom hget hok hidle
      obtain rfl := (List.mem_replicate.1 hch).2
      exact (endedOrKept_iff hhandled hstays hended).1 (hall _ ⟨_, hok, rfl, hidle⟩)
    · rintro hfires _ ⟨chs, hok, rfl, hidle⟩
      obtain ⟨ch, -, hhandled, hstays⟩ := handles_exit cfg hb he hkept herr hroom hget hok hidle
      exact (endedOrKept_iff hhandled hstays hended).2 (hfires ch.now)

end World

end

/-! ## A job killed on its machine -/

namespace World

/-- the shadow of the job reports the given status and reason -/
def exitReported (status : ℕ) (reason : ℤ) : List Step :=
  started ++ List.replicate 2
    (.thread 1 { smooth with serve := .exited (some ⟨status, Shadow.normalizeReason reason⟩) none })

def reportedWorld (q : Queue Value) (status : ℕ) (reason : ℤ) : World Value :=
  run poolSched (start q) (exitReported status reason)

/-- alice has given the job an OnExitHold -/
def exitHoldQueue : Queue Value :=
  (Sys.run (Sys.init poolOptions) (aliceSubmits ++ [.begin 1 "alice@pool",
    .request 1 (.setAttribute ⟨1, 0⟩ "OnExitHold" "true"), .commit 1 200 none])).q

/-- the starter reports JOB_KILLED for the job, which is then held and not archived -/
theorem killed_job_held :
    let w := reportedWorld exitHoldQueue 9 jobKilled
    ∃ w', Handles poolSched w w' ∧ (w'.q.coll.get ⟨1, 0⟩).map (·.int0 .jobStatus) = some statusHeld ∧
      EndedOrKept ⟨1, 0⟩ ⟨9, normalizeReason jobKilled⟩ w.q [] w' := by
  intro w
  let w' := run poolSched w (.take :: (List.replicate 12 smooth).map .core)
  have hw' : Handles poolSched w w' :=
    ⟨List.replicate 12 smooth, by decide, rfl, Option.isNone_iff_eq_none.1 (by decide +kernel)⟩
  have hget : (w.q.coll.get ⟨1, 0⟩).any (fun ad => ad .onExitHold = some (.bool true)) = true := by decide +kernel
  obtain ⟨ad, hget, hhold⟩ := (Option.any_eq_true _ _).1 hget
  refine ⟨w', hw', by decide +kernel, (completed_only_if_ended_iff poolSched w
    (Option.isNone_iff_eq_none.1 (by decide +kernel)) ⟨1, 0⟩ 9 jobKilled none [] (by decide +kernel)
    (by decide +kernel) (by decide) (by decide) ad hget).2 (.inr fun now => ?_) w' hw'⟩
  have hkeeps : Sched.exitView w.q.coll ⟨1, 0⟩ ⟨9, normalizeReason jobKilled⟩ ad now .onExitHold =
      some (.bool true) := by
    simp only [Sched.exitView, Ad.setInt_apply, Ad.chainTo_apply, reduceCtorEq, if_false,
      exitedAd_butFor ⟨9, normalizeReason jobKilled⟩ now ad .onExitHold (by decide), of_decide_eq_true hhold,
      Option.some_or]
  have hfires : Policy.fires (Sched.exitView w.q.coll ⟨1, 0⟩ ⟨9, normalizeReason jobKilled⟩ ad now)
      .onExitHold = true := by
    rw [Policy.fires, Ad.evaluateAttr, hkeeps]
    rfl
  simp [Sched.exitPolicyFires, hfires]

/-- **A killed job completes.** The starter reports JOB_KILLED for a job that died on signal 9; the job is archived as
Completed. -/
theorem killed_job_completed :
    let w := reportedWorld aliceQueue 9 jobKilled
    let w' := run poolSched w (.take :: (List.replicate 12 smooth).map .core)
    endedOnItsOwn ⟨9, normalizeReason jobKilled⟩ = false ∧
      w.events = [.evExited ⟨1, 0⟩ (some ⟨9, normalizeReason jobKilled⟩) none] ∧
      Sched.abandoned w.core ⟨1, 0⟩ = false ∧ w.q.hist.length = 0 ∧ w'.busy.isNone = true ∧
      w'.q.hist.map (fun ad => ad .jobStatus) = [some (.int statusCompleted)] ∧ w'.q.coll.keys = [⟨1, -1⟩] := by
  decide +kernel

end World

end AccessPoint
