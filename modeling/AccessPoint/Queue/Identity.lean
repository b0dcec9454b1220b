/-
Users, super users and the authorization configuration (internal/queue/queue.go, internal/queue/authz.go).

A user is written `name@domain`, split at the last '@'; a name without a domain stands for `UID_DOMAIN`. Two names are
the same user when their canonical forms agree: the name part exactly, the domain ignoring case, and an empty name part
matching nothing (`sameUser`). The owner of a job is its `User`, else its `Owner` in `UID_DOMAIN` (`jobUser`).

The attribute sets of the configuration hold case-folded names, so they are sets of `Attr`.
-/
import AccessPoint.Queue.Store

namespace AccessPoint

open ClassAdLib

/-! ## Names -/

/-- `security.SplitFQU`: the name before the last '@' and the domain after it -/
def splitFQU (user : String) : String × String :=
  let rev := user.toList.reverse
  match rev.dropWhile (· ≠ '@') with
  | [] => (user, "")
  | _ :: rest => (String.ofList rest.reverse, String.ofList (rev.takeWhile (· ≠ '@')).reverse)

def shortName (user : String) : String := (splitFQU user).1

/-- `security.UnmappedDomain` -/
def unmappedDomain : String := "unmapped"

/-- operator-supplied options (the part of `Options` the queue logic reads) -/
structure Options where
  scheddName : String
  uidDomain : String
  superUsers : List String
  /-- `QUEUE_SUPER_USER_MAY_IMPERSONATE`, as the predicate its regular expression decides -/
  mayImpersonate : Option (String → Bool)
  immutableAttrs : List String
  protectedAttrs : List String
  secureAttrs : List String
  allUsersTrusted : Bool
  ignoreSecureAttrs : Bool

/-- the resolved attribute categories and trust knobs -/
structure AuthzConfig where
  immutable : List Attr
  protectedSet : List Attr
  secure : List Attr
  allUsersTrusted : Bool
  ignoreSecure : Bool
  mayImpersonate : Option (String → Bool)

def systemImmutableJobAttrs : List Attr :=
  [.owner, .clusterId, .jobUniverse, .procId, .myType, .targetType, .user, .osUser, .acctGroup, .acctGroupUser,
    .accountingGroup]

def systemSecureJobAttrs : List Attr :=
  [.x509UserProxySubject, .x509UserProxyEmail, .x509UserProxyVOName, .x509UserProxyFirstFQAN, .x509UserProxyFQAN,
    .totalSubmitProcs, .authTokenSubject, .authTokenIssuer, .authTokenGroups, .authTokenId, .authTokenScopes,
    .authTokenProject, .osUser]

def systemProtectedJobAttrs : List Attr := []

section Config

variable (E : Type) [ClassAdLib E]

def isUnmapped (user : String) : Bool := equalFold E (splitFQU user).2 unmappedDomain

/-- the set of one category: the system defaults and the operator's extra names, trimmed, empty ones dropped -/
def foldAttrs (system : List Attr) (extra : List String) : List Attr :=
  system ++ (extra.filterMap fun a => let a := trimSpace E a; if a = "" then none else some (canon E a))

def buildAuthzConfig (opts : Options) : AuthzConfig where
  immutable := foldAttrs E systemImmutableJobAttrs opts.immutableAttrs
  protectedSet := foldAttrs E systemProtectedJobAttrs opts.protectedAttrs
  secure := foldAttrs E systemSecureJobAttrs opts.secureAttrs
  allUsersTrusted := opts.allUsersTrusted
  ignoreSecure := opts.ignoreSecureAttrs
  mayImpersonate := opts.mayImpersonate

/-- a bare name in the given `UID_DOMAIN` -/
def qualify (domain user : String) : String :=
  if user = "" ∨ '@' ∈ user.toList ∨ domain = "" then user else user ++ "@" ++ domain

/-- the form two names are compared in -/
def canonicalUser (domain user : String) : String :=
  match splitFQU (qualify domain user) with
  | (name, "") => name
  | (name, d) => name ++ "@" ++ toLower E d

def sameUser (domain a b : String) : Bool :=
  if shortName a = "" ∨ shortName b = "" then false else canonicalUser E domain a = canonicalUser E domain b

/-- `QUEUE_SUPER_USERS` resolved; "condor" also admits the identities condor_master shares with its children -/
def buildSupers (domain : String) (entries : List String) : List String :=
  entries.flatMap fun s =>
    let s := trimSpace E s
    if s = "" then []
    else canonicalUser E domain s ::
      if s = "condor" then ["condor@child", "condor@parent", "condor@family"].map (canonicalUser E domain) else []

end Config

/-! ## The queue -/

/-- the job-queue authority -/
structure Queue (E : Type) where
  name : String
  domain : String
  supers : List String
  authz : AuthzConfig
  coll : Store E
  nextID : ℤ
  /-- the persisted cluster-id counter (key "counter") -/
  counter : Option ℤ
  /-- the clusters known to be job factories -/
  factories : List ℤ
  /-- the history archive, oldest first -/
  hist : List (Ad E)

namespace Queue

variable {E : Type} [ClassAdLib E]

/-- `Open` on an empty spool directory -/
def openNew (opts : Options) : Queue E where
  name := opts.scheddName
  domain := opts.uidDomain
  supers := buildSupers E opts.uidDomain opts.superUsers
  authz := buildAuthzConfig E opts
  coll := ∅
  nextID := 1
  counter := none
  factories := []
  hist := []

/-- `SetAuthz`: the authorization part of the options replaced live -/
def setAuthz (q : Queue E) (opts : Options) : Queue E :=
  { q with supers := buildSupers E q.domain opts.superUsers, authz := buildAuthzConfig E opts }

def isSuperUser (q : Queue E) (user : String) : Bool :=
  if user = "" then false else canonicalUser E q.domain user ∈ q.supers

/-- the identity that owns the job of `ad` -/
def jobUser (q : Queue E) (ad : Ad E) : String :=
  match ad.evaluateAttrString .user with
  | some u => if u ≠ "" then u else ownerUser
  | none => ownerUser
where
  ownerUser : String :=
    match ad.evaluateAttrString .owner with
    | some o => if o ≠ "" then qualify q.domain o else ""
    | none => ""

/-- `user` owns a job in the live queue or the history: the query compares `User` ignoring case, then `sameUser`
decides -/
def knownUser (q : Queue E) (user : String) : Bool :=
  (q.coll.scan ++ q.hist).any fun ad =>
    match ad.evaluateAttrString .user with
    | some u => equalFold E u user && sameUser E q.domain user (q.jobUser ad)
    | none => false

def mayImpersonate (q : Queue E) (owner : String) : Bool :=
  match q.authz.mayImpersonate with
  | some re => re (shortName owner)
  | none => q.knownUser (qualify q.domain owner)

def globalJobID (q : Queue E) (k : JobKey) (qdate : ℤ) : String :=
  q.name ++ "#" ++ toString k.cluster ++ "." ++ toString k.proc ++ "#" ++ toString qdate

/-- `allocClusterID`; `putErr` is the error of writing the counter, if it fails -/
def allocClusterID (q : Queue E) (putErr : Option String) : Except String ℤ × Queue E :=
  match putErr with
  | some e => (.error ("persisting cluster-id counter: " ++ e), q)
  | none => (.ok q.nextID, { q with nextID := q.nextID + 1, counter := some (q.nextID + 1) })

end Queue

end AccessPoint
