/-
The end of an input upload (internal/spool/spool.go): `finishSpool` records the time, points the job at its sandbox and
releases the hold it was submitted with, in one `Modify`.

The originals of the rewritten attributes are kept under SUBMIT_*; a job that has a SUBMIT_Iwd is not rewritten again.
The sandbox directory is given by its path. On Unix `filepath.ToSlash` is the identity.
-/
import AccessPoint.Core.Text
import AccessPoint.Queue.Actions

namespace AccessPoint

open ClassAdLib

namespace Text

/-- `path.Base` -/
def pathBase (s : List Char) : List Char :=
  if s = [] then ['.']
  else
    let last := ((trimRight (· = '/') s).reverse.takeWhile (· ≠ '/')).reverse
    if last = [] then ['/'] else last

/-- the text before the first "://" -/
def beforeScheme : List Char → Option (List Char)
  | ':' :: '/' :: '/' :: _ => some []
  | c :: cs => (beforeScheme cs).map fun scheme => c :: scheme
  | [] => none

end Text

namespace Spool

/-- `isURL`: a scheme, "://" and anything -/
def isURL (s : List Char) : Bool :=
  match Text.beforeScheme s with
  | some (c :: cs) => c.isAlpha && cs.all fun ch => ch.isAlpha || ch.isDigit || ch = '+' || ch = '-' || ch = '.'
  | _ => false

variable {E : Type} [ClassAdLib E]

def isNullFile (E : Type) [ClassAdLib E] (s : String) : Bool := s = "" || s = "/dev/null" || equalFold E s "UNDEFINED"

/-- `rewriteBasename`: a path becomes its last element, the original goes to `backup` -/
def rewriteBasename (ad : Ad E) (a backup : Attr) : Ad E :=
  match ad.evaluateAttrString a with
  | none => ad
  | some val =>
    if val = "" ∨ isNullFile E val then ad
    else
      let base := String.ofList (Text.pathBase val.toList)
      if base = val then ad else (ad.setStr backup val).setStr a base

/-- the entries of a comma-separated file list: trimmed, empty ones dropped -/
def listEntries (val : String) : List (List Char) := ((Text.splitAt ',' val.toList).map Text.trimSpace).filter (· ≠ [])

/-- an entry as it is found in the sandbox; a URL stays -/
def entryBase (e : List Char) : List Char := if isURL e then e else Text.pathBase e

/-- `rewriteBasenameList`; a list none of whose entries changes is left as it was written -/
def rewriteBasenameList (ad : Ad E) (a backup : Attr) : Ad E :=
  match ad.evaluateAttrString a with
  | none => ad
  | some val =>
    if val = "" ∨ ∀ e ∈ listEntries val, entryBase e = e then ad
    else
      (ad.setStr backup val).setStr a (String.ofList (Text.joinWith ',' ((listEntries val).map entryBase)))

def transferExecutable (ad : Ad E) : Bool := (ad.evaluateAttrBool .transferExecutable).getD true

/-- `Iwd` points at the sandbox, and output remaps are put aside while the output goes there -/
def rewriteIwd (ad : Ad E) (dir : String) : Ad E :=
  let ad := (ad.setStr .submitIwd ((ad.evaluateAttrString .iwd).getD "")).setStr .iwd dir
  match ad.evaluateAttrString .transferOutputRemaps with
  | some remaps =>
    if remaps ≠ "" then (ad.setStr .submitTransferOutputRemaps remaps).delete .transferOutputRemaps else ad
  | none => ad

def rewriteSpooledJobAd (ad : Ad E) (dir : String) : Ad E :=
  if (ad.lookup .submitIwd).isSome then ad
  else
    let ad := rewriteIwd ad dir
    let ad := if transferExecutable ad then rewriteBasename ad .cmd .submitCmd else ad
    let ad := if (ad.evaluateAttrBool .transferIn).getD true then rewriteBasename ad .inFile .submitIn else ad
    let ad := rewriteBasename ad .userLog .submitUserLog
    rewriteBasenameList ad .transferInput .submitTransferInput

def moveAttr (ad : Ad E) (source target : Attr) : Ad E :=
  match ad.lookup source with
  | some e => (ad.insertExpr target e).delete source
  | none => ad

/-- a job on hold goes to its release status, its hold reason to the Last* attributes; any other job is left alone -/
def releaseSpoolHold (ad : Ad E) (now : ℤ) : Ad E :=
  let status := ad.int0 .jobStatus
  if status ≠ statusHeld then ad
  else
    let release := Queue.releaseStatus ad
    let ad := ad.setInt .lastJobStatus status
    let ad := moveAttr ad .holdReason .lastHoldReason
    let ad := moveAttr ad .holdReasonCode .lastHoldReasonCode
    let ad := moveAttr ad .holdReasonSubCode .lastHoldReasonSubCode
    let ad := (ad.delete .jobStatusOnRelease).setStr .releaseReason "Data files spooled"
    ((ad.setInt .jobStatus release).setInt .enteredCurrentStatus now).setInt .lastSuspensionTime 0

/-- the ad of an uploaded job just before its hold is released -/
def uploadedAd (dir : String) (now : ℤ) (ad : Ad E) : Ad E :=
  let ad := if (ad.evaluateAttrInt .stageInFinish).getD 0 = 0 then ad.setInt .stageInFinish (now - 1) else ad
  rewriteSpooledJobAd ad dir

/-- `finishSpool`; false when the job vanished or the write failed -/
def finishSpool (k : JobKey) (dir : String) : Go E Bool := do
  let now ← Go.clock
  Queue.modify k fun ad => releaseSpoolHold (uploadedAd dir now ad) now

/-! ## What the release leaves -/

omit [ClassAdLib E] in
theorem moveAttr_source (ad : Ad E) (source target : Attr) : moveAttr ad source target source = none := by
  unfold moveAttr
  cases h : ad.lookup source with
  | none => exact h
  | some => simp [Ad.delete_apply]

omit [ClassAdLib E] in
theorem moveAttr_none {ad : Ad E} (source target : Attr) {a : Attr} (h : ad a = none) (ht : a ≠ target) :
    moveAttr ad source target a = none := by
  unfold moveAttr
  cases ad.lookup source with
  | none => exact h
  | some => simp [Ad.delete_apply, Ad.insertExpr_apply, ht, h]

/-- a released job has no hold reason of its own -/
theorem releaseSpoolHold_holdReason {ad : Ad E} (h : ad.int0 .jobStatus = statusHeld) (now : ℤ) :
    ∀ a ∈ [Attr.holdReason, .holdReasonCode, .holdReasonSubCode], releaseSpoolHold ad now a = none := by
  unfold releaseSpoolHold
  rw [if_neg (not_not.2 h)]
  intro a ha
  simp only [List.mem_cons, List.not_mem_nil, or_false] at ha
  rcases ha with rfl | rfl | rfl
  · have hreason := moveAttr_source (ad.setInt .lastJobStatus (ad.int0 .jobStatus)) .holdReason .lastHoldReason
    have hcode := moveAttr_none .holdReasonCode .lastHoldReasonCode hreason (by decide)
    have hmoved := moveAttr_none .holdReasonSubCode .lastHoldReasonSubCode hcode (by decide)
    simp only [Ad.setInt_apply, Ad.setStr_apply, Ad.delete_apply, reduceCtorEq, if_false]
    exact hmoved
  · simp only [Ad.setInt_apply, Ad.setStr_apply, Ad.delete_apply, reduceCtorEq, if_false]
    exact moveAttr_none _ _ (moveAttr_source _ _ _) (by decide)
  · simp only [Ad.setInt_apply, Ad.setStr_apply, Ad.delete_apply, reduceCtorEq, if_false]
    exact moveAttr_source _ _ _

end Spool

end AccessPoint
