/-
User job policy (internal/policy/policy.go): the periodic and on-exit expressions of a job and the pool-wide
SYSTEM_PERIODIC_* ones. The first check to fire wins: hold, release, remove, and for a job that just exited the on-exit
pair.
-/
import AccessPoint.Queue.Factory

namespace AccessPoint.Policy

open ClassAdLib

/-- `HoldCodeUserRequest` -/
def holdCodeUserRequest : ℤ := 1

/-- `HoldCodeJobPolicy` -/
def holdCodeJobPolicy : ℤ := 3

/-- `HoldCodeSystemPolicy` -/
def holdCodeSystemPolicy : ℤ := 26

inductive Action where
  | stay | complete | requeue | remove | hold | release
deriving DecidableEq, Repr

inductive Mode where
  | periodicOnly | periodicThenExit
deriving DecidableEq, Repr

/-- the compiled system policy -/
structure System (E : Type) where
  holdExpr : Option E
  releaseExpr : Option E
  removeExpr : Option E
  holdReason : Option E
  removeReason : Option E
  holdSubCode : Option E

structure Decision where
  action : Action
  reason : String
  holdCode : ℤ
  holdSubCode : ℤ
  firing : String
deriving DecidableEq, Repr

variable {E : Type} [ClassAdLib E]

def System.empty : Option (System E) → Bool
  | none => true
  | some s => s.holdExpr.isNone && s.releaseExpr.isNone && s.removeExpr.isNone

/-- a number that is not zero, or true -/
def truthy : Value → Bool
  | .bool b => b
  | .int i => i ≠ 0
  | .real r => r ≠ 0
  | _ => false

/-- the number of a value truncated to an integer, 0 when it is none -/
def number : Value → ℤ
  | .int i => i
  | .real r => r.num.tdiv r.den
  | _ => 0

/-- `fires`; an absent attribute evaluates to undefined, which is not truthy -/
def fires (ad : Ad E) (a : Attr) : Bool := truthy (ad.evaluateAttr a)

def firesExpr (ad : Ad E) : Option E → Bool
  | none => false
  | some e => truthy (eval ad e)

def onExitRemoveIsFalse (ad : Ad E) : Bool :=
  match ad.evaluateAttr .onExitRemove with
  | .bool b => !b
  | .int i => i = 0
  | .real r => r = 0
  | _ => false

def defaultReason (src expr : String) : String :=
  "The " ++ src ++ " " ++ expr ++ " expression evaluated to TRUE"

/-- `holdReason`: the reason attribute of the expression when it is a non-empty string -/
def holdReason (ad : Ad E) (reason : Attr) (base : String) : String :=
  match ad.evaluateAttrString reason with
  | some r => if r ≠ "" then r else defaultReason "job attribute" base
  | none => defaultReason "job attribute" base

def attrNumber (ad : Ad E) (a : Attr) : ℤ := number (ad.evaluateAttr a)

def evalString (ad : Ad E) : Option E → String
  | none => ""
  | some e =>
    match eval ad e with
    | .str s => s
    | _ => ""

def evalNumber (ad : Ad E) : Option E → ℤ
  | none => 0
  | some e => number (eval ad e)

/-- the configured reason of a system expression, or the default one -/
def systemReason (ad : Ad E) (reason : Option E) (knob : String) : String :=
  if evalString ad reason = "" then defaultReason "system macro" knob else evalString ad reason

/-- an expression of the job and then one of the system: the decision of the first that fires -/
def check (ad : Ad E) (a : Attr) (byJob : Decision) (sys : Option (System E)) (expr : System E → Option E)
    (bySystem : System E → Decision) : Option Decision :=
  if fires ad a then some byJob
  else
    match sys with
    | none => none
    | some s => if firesExpr ad (expr s) then some (bySystem s) else none

def checkHold (ad : Ad E) (sys : Option (System E)) : Option Decision :=
  check ad .periodicHold
    ⟨.hold, holdReason ad .periodicHoldReason "PeriodicHold", holdCodeJobPolicy, attrNumber ad .periodicHoldSubCode,
      "PeriodicHold"⟩
    sys (·.holdExpr) fun s =>
    ⟨.hold, systemReason ad s.holdReason "SYSTEM_PERIODIC_HOLD", holdCodeSystemPolicy, evalNumber ad s.holdSubCode,
      "SYSTEM_PERIODIC_HOLD"⟩

def checkRelease (ad : Ad E) (sys : Option (System E)) : Option Decision :=
  check ad .periodicRelease ⟨.release, defaultReason "job attribute" "PeriodicRelease", 0, 0, "PeriodicRelease"⟩
    sys (·.releaseExpr) fun _ =>
    ⟨.release, defaultReason "system macro" "SYSTEM_PERIODIC_RELEASE", 0, 0, "SYSTEM_PERIODIC_RELEASE"⟩

def checkRemove (ad : Ad E) (sys : Option (System E)) : Option Decision :=
  check ad .periodicRemove ⟨.remove, defaultReason "job attribute" "PeriodicRemove", 0, 0, "PeriodicRemove"⟩
    sys (·.removeExpr) fun s =>
    ⟨.remove, systemReason ad s.removeReason "SYSTEM_PERIODIC_REMOVE", 0, 0, "SYSTEM_PERIODIC_REMOVE"⟩

def stay : Decision := ⟨.stay, "", 0, 0, ""⟩

/-- the on-exit pair; `OnExitRemove` is true unless it says false -/
def analyzeExit (ad : Ad E) : Decision :=
  if fires ad .onExitHold then
    ⟨.hold, holdReason ad .onExitHoldReason "OnExitHold", holdCodeJobPolicy, attrNumber ad .onExitHoldSubCode,
      "OnExitHold"⟩
  else if onExitRemoveIsFalse ad then ⟨.requeue, "OnExitRemove evaluated to false", 0, 0, "OnExitRemove"⟩
  else ⟨.complete, "", 0, 0, "OnExitRemove"⟩

/-- the periodic chain -/
def analyzePeriodic (ad : Ad E) (sys : Option (System E)) (state : ℤ) : Option Decision :=
  let hold := if state ≠ statusHeld ∧ state ≠ statusCompleted then checkHold ad sys else none
  let release :=
    -- never for a job held at user request
    if state = statusHeld ∧ ad.int0 .holdReasonCode ≠ holdCodeUserRequest then checkRelease ad sys else none
  hold.or (release.or (checkRemove ad sys))

/-- `Analyze`; a negative state is read from the ad -/
def analyze (ad : Ad E) (mode : Mode) (sys : Option (System E)) (state : ℤ) : Decision :=
  let state := if state < 0 then ad.int0 .jobStatus else state
  if state = statusRemoved then
    match mode with
    | .periodicOnly => stay
    | .periodicThenExit => ⟨.remove, "Job was removed", 0, 0, "OnExitRemove"⟩
  else
    match analyzePeriodic ad sys state with
    | some d => d
    | none =>
      match mode with
      | .periodicOnly => stay
      | .periodicThenExit => analyzeExit ad

/-! ## Which expression decides -/

section

variable {ad : Ad E} {a : Attr} {byJob d : Decision} {sys : Option (System E)} {expr : System E → Option E}
  {bySystem : System E → Decision}

theorem check_some (h : check ad a byJob sys expr bySystem = some d) : d = byJob ∨ ∃ s, d = bySystem s := by
  unfold check at h
  split_ifs at h
  · exact .inl (Option.some.inj h).symm
  · split at h
    · cases h
    · split_ifs at h
      exact .inr ⟨_, (Option.some.inj h).symm⟩

theorem check_absent (ha : ad a = none) (hexpr : ∀ s ∈ sys, expr s = none) :
    check ad a byJob sys expr bySystem = none := by
  have hfires : fires ad a = false := by simp [fires, Ad.evaluateAttr, ha, truthy]
  unfold check
  rw [hfires]
  cases sys with
  | none => rfl
  | some s => simp [firesExpr, hexpr s rfl]

theorem checkHold_action (h : checkHold ad sys = some d) : d.action = .hold := by
  rcases check_some h with rfl | ⟨s, rfl⟩ <;> rfl

theorem checkRelease_action (h : checkRelease ad sys = some d) : d.action = .release := by
  rcases check_some h with rfl | ⟨s, rfl⟩ <;> rfl

theorem checkRemove_action (h : checkRemove ad sys = some d) : d.action = .remove := by
  rcases check_some h with rfl | ⟨s, rfl⟩ <;> rfl

end

end AccessPoint.Policy
