/-
The end of a shadow run (shadow/shadow.go, `afterServe` and `winddown`).

When the serve loop is over the shadow decides the outcome of the run: it steps away from a running job if it was told
to detach, it winds the claim down otherwise, and it returns a result if the starter has reported job_exit. The answers
of the startd, the state of the context and what the serve loop has left behind are inputs.

- `afterServe_answers`: the shapes of what a run returns; a result never comes with the mark of a detached shadow.
- `afterServe_winds_down`: a run that returns a result has deactivated and released its claim.
-/
import AccessPoint.Sched.Command

namespace AccessPoint.Shadow

/-! ## Exit reasons -/

def exitCodeOffset : ℤ := 100

/-- JOB_EXCEPTION -/
def jobException : ℤ := 4

/-- DPRINTF_ERROR -/
def dprintfError : ℤ := 44

def jobExited : ℤ := 0 + exitCodeOffset

def jobKilled : ℤ := 2 + exitCodeOffset

def jobCoredumped : ℤ := 3 + exitCodeOffset

def jobExitedAndClaimClosing : ℤ := 15 + exitCodeOffset

/-- the reason of a job_exit request as the shadow records it; an old starter sends it without the offset -/
def normalizeReason (reason : ℤ) : ℤ :=
  if reason < exitCodeOffset ∧ reason ≠ jobException ∧ reason ≠ dprintfError then reason + exitCodeOffset else reason

/-- `ExitedNormally` -/
def exitedNormally (res : RunResult) : Bool := res.reason = jobExited ∨ res.reason = jobExitedAndClaimClosing

/-! ## The claim -/

/-- `DeactivateType` of the startd client -/
inductive Deactivation where
  | jobDone | graceful | forcibly
deriving DecidableEq, Repr

/-- a command to the startd -/
inductive ClaimCmd where
  | deactivate (d : Deactivation)
  | release
deriving DecidableEq, Repr

/-- the answers of the startd: an error text, or none -/
structure Startd where
  deactivate : Deactivation → Option String
  release : Option String

/-- the error, and the commands sent -/
def winddown (startd : Startd) (keepClaim jobDone vacate : Bool) : Option String × List ClaimCmd :=
  let dt : Deactivation := if vacate then .forcibly else if ¬ jobDone then .graceful else .jobDone
  let first : Option String × List ClaimCmd :=
    match startd.deactivate dt with
    | none => (none, [.deactivate dt])
    | some err =>
      -- an older startd does not know JOB_DONE
      if dt = .jobDone then (startd.deactivate .graceful, [.deactivate dt, .deactivate .graceful])
      else (some err, [.deactivate dt])
  if keepClaim then first
  else
    match startd.release with
    | some err =>
      (some ("release claim: " ++ err ++ " (deactivate error: " ++ first.1.getD "<nil>" ++ ")"), first.2 ++ [.release])
    | none => (first.1, first.2 ++ [.release])

/-- what the serve loop leaves, and the configuration of the shadow -/
structure Served where
  gotExit : Bool
  result : RunResult
  serveErr : Option String
  /-- the context is cancelled -/
  cancelled : Bool
  /-- none when no client is configured -/
  startd : Option Startd
  keepClaim : Bool
  forceWinddownFail : Bool

/-- the wind-down of the claim: nothing is sent without a client -/
def Served.wind (s : Served) : Option String × List ClaimCmd :=
  match s.startd with
  | none => (none, [])
  | some startd => winddown startd s.keepClaim s.gotExit (s.cancelled && !s.gotExit)

/-- `afterServe`, with the commands it sends; `detach` is the flag as it reads it -/
def afterServe (detach : Bool) (s : Served) : (Option RunResult × Option RunErr) × List ClaimCmd :=
  if detach ∧ ¬ s.gotExit then ((none, some .detached), [])
  else
    let wind := s.wind
    let windErr := if wind.1.isNone ∧ s.forceWinddownFail then some "forced wind-down failure (test hook)" else wind.1
    let out : Option RunResult × Option RunErr :=
      if s.gotExit then
        match windErr with
        | some err => (some s.result, some (.other ("shadow: job finished but claim wind-down failed: " ++ err)))
        | none => (some s.result, none)
      else
        match s.serveErr with
        | some err => (none, some (.other err))
        | none => (none, some (.other "shadow: serve loop ended without a job_exit"))
    (out, wind.2)

/-- what a run may return: no result comes with the mark of a detached shadow, which only a shadow told to detach
returns -/
def answers (detach : Bool) : Option RunResult → Option RunErr → Bool
  | some _, err => err ≠ some .detached
  | none, some .detached => detach
  | none, some (.other _) => true
  | none, none => false

theorem afterServe_answers (detach : Bool) (s : Served) :
    answers detach (afterServe detach s).1.1 (afterServe detach s).1.2 = true := by
  unfold afterServe
  by_cases h : detach = true ∧ ¬ s.gotExit = true
  · rw [if_pos h]
    exact h.1
  · rw [if_neg h]
    dsimp only
    cases s.gotExit with
    | true =>
      simp only [if_true]
      split <;> rfl
    | false =>
      simp only [Bool.false_eq_true, if_false]
      split <;> rfl

/-- a run that returns a result has received job_exit, and has deactivated and, unless it keeps it, released its claim
-/
theorem afterServe_winds_down {detach : Bool} {s : Served} {res : RunResult}
    (h : (afterServe detach s).1.1 = some res) :
    s.gotExit = true ∧ res = s.result ∧ ∀ startd, s.startd = some startd →
      .deactivate .jobDone ∈ (afterServe detach s).2 ∧ (s.keepClaim = false → .release ∈ (afterServe detach s).2) := by
  have hexit : s.gotExit = true := by
    by_contra hnot
    unfold afterServe at h
    by_cases hd : detach = true ∧ ¬ s.gotExit = true
    · rw [if_pos hd] at h
      cases h
    · rw [if_neg hd] at h
      simp only [Bool.eq_false_iff.2 hnot, Bool.false_eq_true, if_false] at h
      split at h <;> cases h
  have hd : ¬ (detach = true ∧ ¬ s.gotExit = true) := fun hd => hd.2 hexit
  have hres : res = s.result := by
    unfold afterServe at h
    rw [if_neg hd] at h
    simp only [hexit, if_true] at h
    split at h <;> exact (Option.some.inj h).symm
  refine ⟨hexit, hres, fun startd hs => ?_⟩
  have hsent : (afterServe detach s).2 = (winddown startd s.keepClaim true false).2 := by
    unfold afterServe
    rw [if_neg hd]
    simp [Served.wind, hs, hexit]
  rw [hsent]
  unfold winddown
  cases hj : startd.deactivate .jobDone <;> cases startd.release <;> cases s.keepClaim <;> simp [hj]

end AccessPoint.Shadow
