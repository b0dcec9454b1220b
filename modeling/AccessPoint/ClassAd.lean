/-
ClassAds as the schedd uses them.

An ad maps attribute names to expressions. Names are compared ignoring case, so the model keys an ad by `Attr`: one
constructor for every attribute the schedd itself reads or writes, and `other` for the names only clients use. The
ClassAd library and the string functions of the host language are parameters (`ClassAdLib`): expressions are an
arbitrary type `E`, and the only facts assumed are the documented ones, that a literal evaluates to itself and that the
names the schedd writes through the client interface denote the attributes it means.

`Ad.chainTo` is parent chaining (`collections.Options.ParentKeyFor`): the attributes of a proc ad hide those of its
cluster ad.
-/
import Mathlib.Tactic

namespace AccessPoint

/-- the attributes the schedd names, and every other name a client may use -/
inductive Attr where
  -- identity and keys
  | owner | user | osUser | clusterId | procId | jobUniverse | myType | targetType
  | acctGroup | acctGroupUser | accountingGroup | globalJobId | qDate
  -- provenance, written by the schedd only
  | x509UserProxySubject | x509UserProxyEmail | x509UserProxyVOName | x509UserProxyFirstFQAN | x509UserProxyFQAN
  | totalSubmitProcs | authTokenSubject | authTokenIssuer | authTokenGroups | authTokenId | authTokenScopes
  | authTokenProject
  -- the status machine
  | jobStatus | lastJobStatus | enteredCurrentStatus | holdReason | holdReasonCode | holdReasonSubCode | numHolds
  | jobStatusOnRelease | releaseReason | removeReason | numShadowExceptions | vacateReason | vacateReasonCode
  | vacateReasonSubCode | completionDate
  -- one run
  | remoteHost | lastRemoteHost | claimId | startdIpAddr | lastJobLeaseRenewal | jobLeaseDuration
  | jobCurrentStartDate | jobStartDate | numJobStarts | numShadowStarts | jobRunCount | shadowBday | exitCode
  | exitBySignal | exitStatus | exitSignal | remoteWallClockTime | numJobCompletions | currentTime
  -- user policy
  | periodicHold | periodicHoldReason | periodicHoldSubCode | periodicRelease | periodicRemove | onExitHold
  | onExitHoldReason | onExitHoldSubCode | onExitRemove
  -- late materialization
  | jobMaterializeDigestFile | jobMaterializeItemsFile | jobMaterializeLimit | jobMaterializeMaxIdle
  | jobMaterializeNextProcId | jobMaterializeNextRow | jobMaterializePaused | jobMaterializeDate
  | jobMaterializeItemCount
  -- submit commands a digest may carry
  | cmd | args | arguments | env | environment | out | err | inFile | userLog | iwd | transferInput | transferOutput
  | transferOutputRemaps | requestCpus | requestMemory | requestDisk | requestGpus | jobPrio | jobBatchName
  -- sandbox spooling
  | stageInStart | stageInFinish | stageOutFinish | spooledOutputFiles | transferExecutable | transferIn
  | lastHoldReason | lastHoldReasonCode | lastHoldReasonSubCode | lastSuspensionTime
  | submitIwd | submitTransferOutputRemaps | submitCmd | submitIn | submitUserLog | submitTransferInput
  | other (name : String)
deriving DecidableEq, Repr

/-- the value of an expression; lists, nested ads and times are `other` (the schedd never looks inside one) -/
inductive Value where
  | undefined
  | error
  | bool (b : Bool)
  | int (i : ℤ)
  | real (q : ℚ)
  | str (s : String)
  | other
deriving DecidableEq, Repr

/-- what the schedd takes from the ClassAd library and from the string functions of its host language -/
class ClassAdLib (E : Type) where
  /-- the attribute a name denotes, case ignored -/
  canon : String → Attr
  lit : Value → E
  /-- `classad.ParseExpr`, with the text of the parse error -/
  parseExpr : String → Except String E
  /-- `Expr.String` -/
  render : E → String
  eval : (Attr → Option E) → E → Value
  /-- `ClassAd.Set(name, s)` with a string value reports no error -/
  settable : String → String → Bool
  /-- `strings.ToLower` -/
  toLower : String → String
  /-- `strings.EqualFold` -/
  equalFold : String → String → Bool
  /-- `strings.TrimSpace` -/
  trimSpace : String → String
  /-- `strconv.Quote`, the `%q` verb -/
  quote : String → String
  eval_lit : ∀ ad v, eval ad (lit v) = v
  canon_digestFile : canon "JobMaterializeDigestFile" = .jobMaterializeDigestFile
  canon_itemsFile : canon "JobMaterializeItemsFile" = .jobMaterializeItemsFile
  canon_limit : canon "JobMaterializeLimit" = .jobMaterializeLimit
  canon_nextProcId : canon "JobMaterializeNextProcId" = .jobMaterializeNextProcId
  canon_nextRow : canon "JobMaterializeNextRow" = .jobMaterializeNextRow
  canon_paused : canon "JobMaterializePaused" = .jobMaterializePaused
  canon_date : canon "JobMaterializeDate" = .jobMaterializeDate
  canon_itemCount : canon "JobMaterializeItemCount" = .jobMaterializeItemCount

open ClassAdLib

/-- an ad: the expression of each attribute it has -/
def Ad (E : Type) := Attr → Option E

namespace Ad

variable {E : Type}

/-- `classad.New` -/
def empty : Ad E := fun _ => none

def lookup (ad : Ad E) (a : Attr) : Option E := ad a

def insertExpr (ad : Ad E) (a : Attr) (e : E) : Ad E := fun b => if b = a then some e else ad b

def delete (ad : Ad E) (a : Attr) : Ad E := fun b => if b = a then none else ad b

/-- `ad` chained to `parent`: its own attributes hide those of the parent -/
def chainTo (ad parent : Ad E) : Ad E := fun a => (ad a).or (parent a)

@[simp] theorem empty_apply (a : Attr) : (empty : Ad E) a = none := rfl

variable (ad : Ad E)

@[simp] theorem lookup_eq (a : Attr) : ad.lookup a = ad a := rfl

theorem insertExpr_apply (a b : Attr) (e : E) :
    ad.insertExpr a e b = if b = a then some e else ad b := rfl

theorem delete_apply (a b : Attr) : ad.delete a b = if b = a then none else ad b := rfl

@[simp] theorem chainTo_apply (ad parent : Ad E) (a : Attr) : ad.chainTo parent a = (ad a).or (parent a) := rfl

@[simp] theorem chainTo_empty : ad.chainTo empty = ad := by
  funext a; simp

theorem ext {ad ad' : Ad E} (h : ∀ a, ad a = ad' a) : ad = ad' := funext h

variable [ClassAdLib E]

/-- `Set`, `InsertAttr` and `InsertAttrString` with a literal -/
def set (ad : Ad E) (a : Attr) (v : Value) : Ad E := ad.insertExpr a (lit v)

def setInt (ad : Ad E) (a : Attr) (i : ℤ) : Ad E := ad.set a (.int i)

def setStr (ad : Ad E) (a : Attr) (s : String) : Ad E := ad.set a (.str s)

def evaluateAttr (ad : Ad E) (a : Attr) : Value :=
  match ad a with
  | none => .undefined
  | some e => eval ad e

def evaluateAttrInt (ad : Ad E) (a : Attr) : Option ℤ :=
  match ad.evaluateAttr a with
  | .int i => some i
  | _ => none

def evaluateAttrString (ad : Ad E) (a : Attr) : Option String :=
  match ad.evaluateAttr a with
  | .str s => some s
  | _ => none

def evaluateAttrBool (ad : Ad E) (a : Attr) : Option Bool :=
  match ad.evaluateAttr a with
  | .bool b => some b
  | _ => none

/-- the value the code gets from `v, _ := ad.EvaluateAttrInt(a)`: 0 when there is none -/
def int0 (ad : Ad E) (a : Attr) : ℤ := (ad.evaluateAttrInt a).getD 0

theorem set_apply (a b : Attr) (v : Value) : ad.set a v b = if b = a then some (lit v) else ad b := rfl

theorem setInt_apply (a b : Attr) (i : ℤ) :
    ad.setInt a i b = if b = a then some (lit (.int i)) else ad b := rfl

theorem setStr_apply (a b : Attr) (s : String) :
    ad.setStr a s b = if b = a then some (lit (.str s)) else ad b := rfl

variable {a : Attr}

theorem evaluateAttr_lit {ad : Ad E} {v : Value} (h : ad a = some (lit v)) : ad.evaluateAttr a = v := by
  unfold evaluateAttr
  rw [h]
  exact eval_lit _ v

theorem evaluateAttrInt_lit {ad : Ad E} {i : ℤ} (h : ad a = some (lit (.int i))) : ad.evaluateAttrInt a = some i := by
  simp [evaluateAttrInt, evaluateAttr_lit h]

theorem int0_lit {ad : Ad E} {i : ℤ} (h : ad a = some (lit (.int i))) : ad.int0 a = i := by
  rw [int0, evaluateAttrInt_lit h]
  rfl

theorem evaluateAttrString_lit {ad : Ad E} {s : String} (h : ad a = some (lit (.str s))) :
    ad.evaluateAttrString a = some s := by
  simp [evaluateAttrString, evaluateAttr_lit h]

theorem evaluateAttrString_iff (a : Attr) (v : String) :
    ad.evaluateAttrString a = some v ↔ ∃ e, ad a = some e ∧ eval ad e = .str v := by
  unfold evaluateAttrString evaluateAttr
  cases h : ad a with
  | none => simp
  | some e => cases he : eval ad e <;> simp [he]

theorem evaluateAttrString_none {ad : Ad E} (h : ad a = none) : ad.evaluateAttrString a = none := by
  simp [evaluateAttrString, evaluateAttr, h]

end Ad

end AccessPoint
