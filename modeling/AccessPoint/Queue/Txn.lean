/-
QMGMT transactions (internal/queue/txn.go, internal/queue/authz.go).

A transaction stages edits over the committed store: `pending` holds the own attributes of every staged ad, `delAttrs`
the names deleted at each key as the client spelled them, `destroyed` the keys to remove. Every client edit passes
`authorize`; an ad that is not yet in the store is exempt from the ownership, immutable and protected rules.

`Op` is one client request on an open transaction and `step` its effect. A refused request leaves the transaction as it
was, with one exception the source has: `SetAttribute` stages the ad before it looks at the value.
-/
import AccessPoint.Queue.Identity

namespace AccessPoint

open ClassAdLib

/-- an error: `authz` is an `AuthzError`, which the wire protocol reports as EACCES -/
inductive QErr where
  | authz (msg : String)
  | plain (msg : String)
deriving DecidableEq, Repr

/-- the text of "c.p" in messages -/
def JobKey.text (k : JobKey) : String := toString k.cluster ++ "." ++ toString k.proc

structure Txn (E : Type) where
  authUser : String
  owner : String
  user : String
  isSuper : Bool
  allowProtected : Bool
  /-- the cluster `NewProc` may extend, -1 when there is none -/
  active : ℤ
  pending : KeyMap JobKey (Ad E)
  nextProc : KeyMap ℤ ℤ
  /-- key ↦ deleted names, as spelled -/
  delAttrs : List (JobKey × String)
  destroyed : List JobKey
  newProcs : List JobKey
  errs : List String

namespace Txn

variable {E : Type} [ClassAdLib E]

/-- `Queue.Begin` -/
def begin (q : Queue E) (authUser : String) : Txn E :=
  let authUser := if isUnmapped E authUser then "" else authUser
  let user := qualify q.domain authUser
  { authUser := authUser, owner := shortName user, user := user, isSuper := q.isSuperUser authUser,
    allowProtected := false, active := -1, pending := ∅, nextProc := ∅, delAttrs := [], destroyed := [],
    newProcs := [], errs := [] }

def anonymous (t : Txn E) : Bool := t.authUser = ""

def errAnonymous : QErr := .authz "authentication is required to modify the job queue"

/-! ## Authorization -/

/-- the ownership rule for a committed job owned by `owner`; `none` is permission -/
def checkOwner (q : Queue E) (t : Txn E) (k : JobKey) (owner : String) : Option QErr :=
  if q.authz.allUsersTrusted || t.isSuper then none
  else if owner ≠ "" ∧ ¬ sameUser E q.domain t.authUser owner then
    some (.authz ("user " ++ quote E t.authUser ++ " may not modify job " ++ k.text ++ " owned by " ++ quote E owner))
  else none

/-- the owner of the committed ad at `k`; `none` when no ad is there -/
def committedOwner (q : Queue E) (k : JobKey) : Option String :=
  match q.coll.get k with
  | none => none
  | some ad =>
    if q.jobUser ad ≠ "" then some (q.jobUser ad)
    else if 0 ≤ k.proc then
      -- a proc ad without its own user falls back to the cluster ad
      match q.coll.get (clusterKey k.cluster) with
      | some cad => some (q.jobUser cad)
      | none => some ""
    else some ""

/-- what `authorize` decides about one write -/
inductive Verdict where
  | allow
  /-- silently dropped -/
  | ignore
  | deny (e : QErr)
deriving DecidableEq, Repr

def authorize (q : Queue E) (t : Txn E) (k : JobKey) (name : String) : Verdict :=
  if t.anonymous then .deny errAnonymous
  else if canon E name ∈ q.authz.secure then
    if q.authz.ignoreSecure then .ignore
    else .deny (.authz ("attempt to edit secure attribute " ++ quote E name ++ " in job " ++ k.text))
  else
    match committedOwner q k with
    | none => .allow
    | some owner =>
      match checkOwner q t k owner with
      | some e => .deny e
      | none =>
        if canon E name ∈ q.authz.immutable then
          .deny (.authz ("attempt to edit immutable attribute " ++ quote E name ++ " in job " ++ k.text))
        else if canon E name ∈ q.authz.protectedSet ∧
            ((!t.isSuper && !q.authz.allUsersTrusted) || !t.allowProtected) then
          .deny (.authz ("unauthorized setting of protected attribute " ++ quote E name ++ " denied in job " ++ k.text))
        else .allow

/-! ## Requests -/

/-- `stagedAd`: the staged ad of `k`, an empty one staged when there is none -/
def staged (t : Txn E) (k : JobKey) : Ad E := (t.pending.lookup k).getD Ad.empty

/-- write the staged ad of `k` -/
def stage (t : Txn E) (k : JobKey) (ad : Ad E) : Txn E := { t with pending := t.pending.insert k ad }

def setEffectiveOwner (q : Queue E) (t : Txn E) (owner : String) : Except QErr (Txn E) :=
  if owner = "" then .ok t
  else if t.authUser ≠ "" ∧ sameUser E q.domain owner t.authUser then
    let user := qualify q.domain t.authUser
    .ok { t with user := user, owner := shortName user }
  else if ¬ t.isSuper then
    .error (.plain ("user " ++ quote E t.authUser ++ " may not set effective owner to " ++ quote E owner))
  else if shortName owner = "" ∨ isUnmapped E owner then
    .error (.plain ("effective owner " ++ quote E owner ++ " is not a user"))
  else if shortName owner = "root" ∨ shortName owner = "LOCAL_SYSTEM" then
    .error (.plain ("effective owner " ++ quote E owner ++ " is not permitted"))
  else if ¬ q.mayImpersonate owner then
    .error (.plain ("user " ++ quote E t.authUser ++ " may not impersonate " ++ quote E owner))
  else
    let user := qualify q.domain owner
    .ok { t with user := user, owner := shortName user }

/-- `NewCluster`; the cluster id is taken from the queue at once, not at commit -/
def newCluster (q : Queue E) (t : Txn E) (putErr : Option String) : Except QErr (ℤ × Txn E) × Queue E :=
  if t.anonymous then (.error errAnonymous, q)
  else
    match q.allocClusterID putErr with
    | (.error e, q') => (.error (.plain e), q')
    | (.ok id, q') =>
      let t' := { t with active := id, nextProc := t.nextProc.insert id 0 }
      (.ok (id, t'.stage (clusterKey id) (t'.staged (clusterKey id))), q')

def newProc (t : Txn E) (cluster : ℤ) : Except QErr (ℤ × Txn E) :=
  if t.anonymous then .error errAnonymous
  else if cluster ≠ t.active then
    .error (.plain ("NewProc for cluster " ++ toString cluster ++ " but active cluster is " ++ toString t.active))
  else
    let p := (t.nextProc.lookup cluster).getD 0
    let k : JobKey := ⟨cluster, p⟩
    let t' := { t with nextProc := t.nextProc.insert cluster (p + 1), newProcs := k :: t.newProcs }
    .ok (p, t'.stage k (t'.staged k))

/-- `SetAttribute`: the error, if any, and the transaction after it -/
def setAttribute (q : Queue E) (t : Txn E) (k : JobKey) (name value : String) : Option QErr × Txn E :=
  if value = "" then (some (.plain ("empty value for attribute " ++ name)), t)
  else
    match authorize q t k name with
    | .deny e => (some e, t)
    | .ignore => (none, t)
    | .allow =>
      match (parseExpr value : Except String E) with
      | .error e =>
        -- a value that does not parse is kept as a string; the deletion mark of the name stays
        if settable E name value then (none, t.stage k ((t.staged k).setStr (canon E name) value))
        else (some (.plain ("parsing value for " ++ name ++ ": " ++ e)), t.stage k (t.staged k))
      | .ok e =>
        let t' := t.stage k ((t.staged k).insertExpr (canon E name) e)
        (none, { t' with delAttrs := t'.delAttrs.filter (· ≠ (k, name)) })

def deleteAttribute (q : Queue E) (t : Txn E) (k : JobKey) (name : String) : Option QErr × Txn E :=
  match authorize q t k name with
  | .deny e => (some e, t)
  | .ignore => (none, t)
  | .allow =>
    let t' := match t.pending.lookup k with
      | some ad => t.stage k (ad.delete (canon E name))
      | none => t
    (none, { t' with delAttrs := (k, name) :: t'.delAttrs })

def setAllowProtectedChanges (t : Txn E) (v : Bool) : Bool × Txn E := (t.allowProtected, { t with allowProtected := v })

def destroyProc (q : Queue E) (t : Txn E) (k : JobKey) : Option QErr × Txn E :=
  if t.anonymous then (some errAnonymous, t)
  else
    match (committedOwner q k).bind (checkOwner q t k) with
    | some e => (some e, t)
    | none => (none, { t with destroyed := k :: t.destroyed, pending := t.pending.erase k })

/-- `jobIDs`: the key an ad's own attributes claim -/
def jobIDs (ad : Ad E) : Option JobKey :=
  match ad.evaluateAttrInt .clusterId, ad.evaluateAttrInt .procId with
  | some c, some p => some ⟨c, p⟩
  | _, _ => none

/-- the ads of cluster `c` a scan finds, by the ids their attributes claim -/
def clusterProcs (q : Queue E) (c : ℤ) : List (JobKey × Ad E) :=
  q.coll.scan.filterMap fun ad =>
    match jobIDs ad with
    | some k => if k.cluster = c then some (k, ad) else none
    | none => none

def destroyCluster (q : Queue E) (t : Txn E) (c : ℤ) : Option QErr × Txn E :=
  if t.anonymous then (some errAnonymous, t)
  else
    match (committedOwner q (clusterKey c)).bind (checkOwner q t (clusterKey c)) with
    | some e => (some e, t)
    | none =>
      match (clusterProcs q c).findSome? fun (k, ad) => checkOwner q t k (q.jobUser ad) with
      | some e => (some e, t)
      | none =>
        (none, { t with
          destroyed := clusterKey c :: ((clusterProcs q c).map Prod.fst ++ t.destroyed)
          pending := t.pending.erase (clusterKey c) })

/-- `Abort` -/
def abort (t : Txn E) : Txn E := { t with pending := ∅, destroyed := [] }

/-- `AddError`: a deferred error that will fail the commit -/
def addError (t : Txn E) (msg : String) : Txn E := { t with errs := t.errs ++ [msg] }

/-! ## Reads -/

/-- the expression `GetAttribute` finds, before it is printed -/
def getAttributeExpr (q : Queue E) (t : Txn E) (k : JobKey) (name : String) : Option E :=
  if (k, name) ∈ t.delAttrs then none
  else
    let a := canon E name
    let own := (t.pending.lookup k).bind fun ad => ad.lookup a
    let inherited := if 0 ≤ k.proc then (t.pending.lookup (clusterKey k.cluster)).bind fun ad => ad.lookup a else none
    let committed := (q.coll.get k).bind fun ad => ad.lookup a
    own.or (inherited.or committed)

def getAttribute (q : Queue E) (t : Txn E) (k : JobKey) (name : String) : Option String :=
  (getAttributeExpr q t k name).map render

/-- `GetJobAd`: the committed flattened ad with the staged attributes of `k` written over it -/
def getJobAd (q : Queue E) (t : Txn E) (k : JobKey) : Option (Ad E) :=
  match q.coll.get k, t.pending.lookup k with
  | none, none => none
  | some base, none => some base
  | none, some ad => some ad
  | some base, some ad => some (ad.chainTo base)

/-! ## Whole transactions -/

/-- one request on an open transaction -/
inductive Op where
  /-- `putErr`: the error of persisting the counter, if that fails -/
  | newCluster (putErr : Option String)
  | newProc (cluster : ℤ)
  | setAttribute (k : JobKey) (name value : String)
  | deleteAttribute (k : JobKey) (name : String)
  | destroyProc (k : JobKey)
  | destroyCluster (c : ℤ)
  | setEffectiveOwner (owner : String)
  | setAllowProtectedChanges (v : Bool)
  | addError (msg : String)
deriving DecidableEq, Repr

/-- the queue and the transaction after one request -/
def step (s : Queue E × Txn E) : Op → Queue E × Txn E
  | .newCluster putErr =>
    match newCluster s.1 s.2 putErr with
    | (.ok (_, t'), q') => (q', t')
    | (.error _, q') => (q', s.2)
  | .newProc c =>
    match newProc s.2 c with
    | .ok (_, t') => (s.1, t')
    | .error _ => s
  | .setAttribute k name value => (s.1, (setAttribute s.1 s.2 k name value).2)
  | .deleteAttribute k name => (s.1, (deleteAttribute s.1 s.2 k name).2)
  | .destroyProc k => (s.1, (destroyProc s.1 s.2 k).2)
  | .destroyCluster c => (s.1, (destroyCluster s.1 s.2 c).2)
  | .setEffectiveOwner owner =>
    match setEffectiveOwner s.1 s.2 owner with
    | .ok t' => (s.1, t')
    | .error _ => s
  | .setAllowProtectedChanges v => (s.1, (setAllowProtectedChanges s.2 v).2)
  | .addError msg => (s.1, addError s.2 msg)

def run (s : Queue E × Txn E) (ops : List Op) : Queue E × Txn E := ops.foldl step s

end Txn

end AccessPoint
