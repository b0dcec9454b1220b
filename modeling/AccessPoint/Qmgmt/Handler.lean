/-
The QMGMT server (internal/qmgmt/handler.go).

`Server.handle` is one turn of the loop in `Handle`: a decoded message in, the reply and the connection out (`none` when
the loop ends). A connection keeps its authenticated user, the write permission of its command, the protected-changes
flag, which survives transaction resets, and its scan cursor. Reading the wire, the user log and the texts of the logger
are left out; a reply carries the values the source writes.

- `Server.handle_turn`: what a message can do to the queue and to the transaction of its connection (`Turn`).
-/
import AccessPoint.Queue.TxnRun
import AccessPoint.Factory.Digest

namespace AccessPoint

open ClassAdLib

/-- `ePERM` -/
def ePERM : ℤ := 1

/-- `eNOENT` -/
def eNOENT : ℤ := 2

/-- `eACCES` -/
def eACCES : ℤ := 13

/-- `eINVAL` -/
def eINVAL : ℤ := 22

/-- EACCES for an authorization denial, EINVAL for a malformed request -/
def terrnoFor : QErr → ℤ
  | .authz _ => eACCES
  | .plain _ => eINVAL

/-- `Error` -/
def QErr.text : QErr → String
  | .authz msg => msg
  | .plain msg => msg

/-- the four typed reads of one attribute -/
inductive GetKind where
  | int | float | string | expr
deriving DecidableEq, Repr

/-- one message, decoded -/
inductive Request where
  | closeSocket
  | getCapabilities
  | beginTransaction
  | abortTransaction
  /-- with or without flags, which are read and ignored -/
  | commitTransaction
  | newCluster
  | newProc (cluster : ℤ)
  | setAttribute (k : JobKey) (value name : String) (noAck : Bool)
  | deleteAttribute (k : JobKey) (name : String)
  | destroyProc (k : JobKey)
  | destroyCluster (cluster : ℤ)
  | setEffectiveOwner (owner : String)
  | setAllowProtectedChanges (val : ℤ)
  | getJobAd (k : JobKey)
  | getAttribute (kind : GetKind) (k : JobKey) (name : String)
  | getJobByConstraint (constraint : String)
  | getNextJobByConstraint (initScan : ℤ) (constraint : String)
  | getAllJobsByConstraint (constraint : String)
  | sendSpoolFile
  | sendSpoolFileIfNeeded
  | setJobFactory (cluster num : ℤ) (text : String)
  /-- obsolete -/
  | setMaterializeData
  | sendMaterializeData (cluster : ℤ) (data : String)
  /-- any other op, or a message that ends too early -/
  | unsupported
deriving DecidableEq, Repr

/-- the values of a reply, in wire order -/
inductive Reply (E : Type) where
  /-- rval, and terrno when rval is negative -/
  | status (rval terrno : ℤ)
  | capabilities
  /-- rval 0 and an empty ad, or -1, EINVAL and an ad with ErrorCode 2 and this ErrorReason -/
  | commit (errorReason : Option String)
  /-- -1, terrno and an ad with that ErrorCode and this ErrorReason -/
  | newClusterErr (terrno : ℤ) (errorReason : String)
  | ad (ad : Ad E)
  | int (v : ℤ)
  | real (v : ℚ)
  | text (s : String)
  /-- each ad after rval 0, then -1 and ENOENT -/
  | jobs (ads : List (Ad E))
  /-- rval alone, or with an unconditional terrno -/
  | spool (rval : ℤ) (terrno : Option ℤ)
  | materializeData (filename : String) (count rval terrno : ℤ)

/-- what surrounds one message: the clock, the errors of the store and of the file system, the compiled constraints -/
structure Env (E : Type) where
  now : ℤ
  putErr : Option String
  updErr : Option String
  writeErr : Option String
  /-- `vm.Parse` and the query it makes; `none` when the constraint does not parse -/
  query : String → Option (Ad E → Bool)

structure Conn (E : Type) where
  user : String
  writable : Bool
  allowProtected : Bool
  txn : Txn E
  scanState : List (Ad E)
  scanPos : ℕ

structure Server (E : Type) where
  q : Queue E
  spoolDir : String
  /-- the files the server has written, by path -/
  disk : KeyMap String String

variable {E : Type} [ClassAdLib E]

namespace Server

/-- `begin`: a fresh transaction with the connection's flag -/
def begin (s : Server E) (user : String) (allowProtected : Bool) : Txn E :=
  ((Txn.begin s.q user).setAllowProtectedChanges allowProtected).2

/-- the connection at the top of the loop -/
def connect (s : Server E) (user : String) (writable : Bool) : Conn E :=
  ⟨user, writable, false, s.begin user false, [], 0⟩

/-- `compileConstraint` -/
def compileConstraint (env : Env E) (constraint : String) : Option (Ad E → Bool) :=
  if constraint = "" ∨ constraint = "true" ∨ constraint = "TRUE" then none else env.query constraint

/-- `snapshot`: the committed jobs matching the constraint, all of them when there is none -/
def snapshot (s : Server E) (env : Env E) (constraint : String) : List (Ad E) :=
  match compileConstraint env constraint with
  | some p => s.q.coll.scan.filter p
  | none => s.q.coll.scan

/-- `SetAttribute` of several attributes of one ad, up to the first error -/
def setAll (q : Queue E) (k : JobKey) : Txn E → List (String × String) → Option QErr × Txn E
  | t, [] => (none, t)
  | t, (name, value) :: rest =>
    match t.setAttribute q k name value with
    | (some e, t') => (some e, t')
    | (none, t') => setAll q k t' rest

/-- the bookkeeping `setJobFactory` stages, in order -/
def factoryAttrs (s : Server E) (cluster num now : ℤ) : List (String × String) :=
  [("JobMaterializeLimit", toString num),
    ("JobMaterializeDigestFile", quote E (spooledDigestPath s.spoolDir cluster)),
    ("JobMaterializeNextProcId", "0"), ("JobMaterializeNextRow", "0"), ("JobMaterializePaused", "0"),
    ("JobMaterializeDate", toString now)]

def setJobFactory (s : Server E) (env : Env E) (t : Txn E) (cluster num : ℤ) (digest : String) :
    Bool × Server E × Txn E :=
  match env.writeErr with
  | some _ => (false, s, t)
  | none =>
    let s' := { s with disk := s.disk.insert (spooledDigestPath s.spoolDir cluster) digest }
    match setAll s.q (clusterKey cluster) t (s.factoryAttrs cluster num env.now) with
    | (some _, t') => (false, s', t')
    | (none, t') => (true, s', t')

/-- the bookkeeping `sendMaterializeData` stages, in order -/
def itemAttrs (s : Server E) (cluster : ℤ) (data : String) : List (String × String) :=
  [("JobMaterializeItemsFile", quote E (spooledItemsPath s.spoolDir cluster)),
    ("JobMaterializeItemCount", toString (parseItems data).length)]

def sendMaterializeData (s : Server E) (env : Env E) (t : Txn E) (cluster : ℤ) (data : String) :
    Option (String × ℤ) × Server E × Txn E :=
  match env.writeErr with
  | some _ => (none, s, t)
  | none =>
    let path := spooledItemsPath s.spoolDir cluster
    let s' := { s with disk := s.disk.insert path data }
    match setAll s.q (clusterKey cluster) t (s.itemAttrs cluster data) with
    | (some _, t') => (none, s', t')
    | (none, t') => (some (path, (parseItems data).length), s', t')

/-- `replyGetAttribute` -/
def replyGetAttribute (s : Server E) (t : Txn E) (kind : GetKind) (k : JobKey) (name : String) : Reply E :=
  match t.getAttribute s.q k name with
  | none => .status (-1) eNOENT
  | some valStr =>
    let ad := (t.getJobAd s.q k).getD Ad.empty
    match kind with
    | .int => .int (ad.int0 (canon E name))
    | .float =>
      match ad.evaluateAttr (canon E name) with
      | .real r => .real r
      | _ => .real 0
    | .string => .text valStr
    | .expr => .text valStr

/-- the reply to a request that either reports nothing or an error -/
def replyErr : Option QErr → Reply E
  | none => .status 0 0
  | some e => .status (-1) (terrnoFor e)

/-- `OpSetAttribute` and `OpSetAttribute2`: a NoAck request is never answered, its failure is left to the commit -/
def handleSetAttribute (s : Server E) (c : Conn E) (k : JobKey) (value name : String) (noAck : Bool) :
    Conn E × Option (Reply E) :=
  if ¬ c.writable then
    if noAck then ({ c with txn := c.txn.addError "read-only connection" }, none)
    else (c, some (.status (-1) ePERM))
  else
    match c.txn.setAttribute s.q k name value with
    | (serr, t) =>
      if noAck then
        match serr with
        | some e => ({ c with txn := t.addError e.text }, none)
        | none => ({ c with txn := t }, none)
      else ({ c with txn := t }, some (replyErr serr))

/-- one turn of the loop in `Handle` -/
def handle (env : Env E) (s : Server E) (c : Conn E) : Request → Server E × Option (Conn E) × Option (Reply E)
  | .closeSocket => (s, none, none)
  | .getCapabilities => (s, some c, some .capabilities)
  | .beginTransaction => (s, some { c with txn := s.begin c.user c.allowProtected }, some (.status 0 0))
  | .abortTransaction => (s, some { c with txn := s.begin c.user c.allowProtected }, some (.status 0 0))
  | .commitTransaction =>
    match c.txn.commit s.q env.now env.updErr with
    | (cerr, q', _) =>
      let s' := { s with q := q' }
      (s', some { c with txn := s'.begin c.user c.allowProtected }, some (.commit (cerr.map QErr.text)))
  | .newCluster =>
    if ¬ c.writable then (s, some c, some (.status (-1) ePERM))
    else
      match c.txn.newCluster s.q env.putErr with
      | (.error e, q') => ({ s with q := q' }, some c, some (.newClusterErr (terrnoFor e) e.text))
      | (.ok (id, t), q') => ({ s with q := q' }, some { c with txn := t }, some (.status id 0))
  | .newProc cluster =>
    if ¬ c.writable then (s, some c, some (.status (-1) ePERM))
    else
      match c.txn.newProc cluster with
      | .error e => (s, some c, some (.status (-1) (terrnoFor e)))
      | .ok (p, t) => (s, some { c with txn := t }, some (.status p 0))
  | .setAttribute k value name noAck =>
    let r := s.handleSetAttribute c k value name noAck
    (s, some r.1, r.2)
  | .deleteAttribute k name =>
    if ¬ c.writable then (s, some c, some (.status (-1) ePERM))
    else
      let r := c.txn.deleteAttribute s.q k name
      (s, some { c with txn := r.2 }, some (replyErr r.1))
  | .destroyProc k =>
    if ¬ c.writable then (s, some c, some (.status (-1) ePERM))
    else
      let r := c.txn.destroyProc s.q k
      (s, some { c with txn := r.2 }, some (replyErr r.1))
  | .destroyCluster cluster =>
    if ¬ c.writable then (s, some c, some (.status (-1) ePERM))
    else
      let r := c.txn.destroyCluster s.q cluster
      (s, some { c with txn := r.2 }, some (replyErr r.1))
  | .setEffectiveOwner owner =>
    match c.txn.setEffectiveOwner s.q owner with
    | .error _ => (s, some c, some (.status (-1) eACCES))
    | .ok t => (s, some { c with txn := t }, some (.status 0 0))
  | .setAllowProtectedChanges val =>
    -- the reply is the previous value
    let r := c.txn.setAllowProtectedChanges (val ≠ 0)
    (s, some { c with allowProtected := val ≠ 0, txn := r.2 }, some (.status (if r.1 then 1 else 0) 0))
  | .getJobAd k =>
    match c.txn.getJobAd s.q k with
    | none => (s, some c, some (.status (-1) eNOENT))
    | some ad => (s, some c, some (.ad ad))
  | .getAttribute kind k name => (s, some c, some (s.replyGetAttribute c.txn kind k name))
  | .getJobByConstraint constraint =>
    match s.snapshot env constraint with
    | [] => (s, some c, some (.status (-1) eNOENT))
    | ad :: _ => (s, some c, some (.ad ad))
  | .getNextJobByConstraint initScan constraint =>
    let c := if initScan = 1 then { c with scanState := s.snapshot env constraint, scanPos := 0 } else c
    match c.scanState[c.scanPos]? with
    | none => (s, some c, some (.status (-1) eNOENT))
    | some ad => (s, some { c with scanPos := c.scanPos + 1 }, some (.ad ad))
  | .getAllJobsByConstraint constraint => (s, some c, some (.jobs (s.snapshot env constraint)))
  | .sendSpoolFile => (s, some c, some (.spool (-2) (some eINVAL)))
  | .sendSpoolFileIfNeeded => (s, some c, some (.spool (-2) none))
  | .setJobFactory cluster num text =>
    if ¬ c.writable ∨ cluster ≠ c.txn.active then (s, some c, some (.status (-1) ePERM))
    else
      match s.setJobFactory env c.txn cluster num text with
      | (false, s', t) => (s', some { c with txn := t }, some (.status (-1) eINVAL))
      | (true, s', t) => (s', some { c with txn := t }, some (.status 0 0))
  | .setMaterializeData => (s, some c, some (.status (-1) ePERM))
  | .sendMaterializeData cluster data =>
    if ¬ c.writable ∨ cluster ≠ c.txn.active then (s, some c, some (.materializeData "" 0 (-1) ePERM))
    else
      match s.sendMaterializeData env c.txn cluster data with
      | (none, s', t) => (s', some { c with txn := t }, some (.materializeData "" 0 (-1) eINVAL))
      | (some (path, count), s', t) => (s', some { c with txn := t }, some (.materializeData path count 0 0))
  | .unsupported => (s, none, none)

/-! ## What a message does -/

/-- the ways one message can leave the queue and the transaction of its connection -/
inductive Turn (env : Env E) (s : Server E) (c : Conn E) : Request → Queue E → Txn E → Prop where
  | kept (r : Request) : Turn env s c r s.q c.txn
  | reset (r : Request) : Turn env s c r s.q (s.begin c.user c.allowProtected)
  | commit :
      Turn env s c .commitTransaction (c.txn.commit s.q env.now env.updErr).2.1
        ({ s with q := (c.txn.commit s.q env.now env.updErr).2.1 }.begin c.user c.allowProtected)
  | set (k : JobKey) (value name : String) (noAck : Bool) (hw : c.writable = true) :
      Turn env s c (.setAttribute k value name noAck) s.q (c.txn.setAttribute s.q k name value).2
  /-- a failed request that is not answered -/
  | setDeferred (k : JobKey) (value name msg : String) (hw : c.writable = true) :
      Turn env s c (.setAttribute k value name true) s.q ((c.txn.setAttribute s.q k name value).2.addError msg)
  /-- any other request on the transaction -/
  | op (r : Request) (o : Txn.Op) (ho : ∀ k name value, o ≠ .setAttribute k name value) :
      Turn env s c r (Txn.step (s.q, c.txn) o).1 (Txn.step (s.q, c.txn) o).2
  | factory (cluster num : ℤ) (text : String) (hc : cluster = c.txn.active) :
      Turn env s c (.setJobFactory cluster num text) s.q
        (setAll s.q (clusterKey cluster) c.txn (s.factoryAttrs cluster num env.now)).2
  | items (cluster : ℤ) (data : String) (hc : cluster = c.txn.active) :
      Turn env s c (.sendMaterializeData cluster data) s.q
        (setAll s.q (clusterKey cluster) c.txn (s.itemAttrs cluster data)).2

variable (env : Env E) (s : Server E) (c : Conn E)

theorem handleSetAttribute_turn (k : JobKey) (value name : String) (noAck : Bool) :
    Turn env s c (.setAttribute k value name noAck) s.q (s.handleSetAttribute c k value name noAck).1.txn := by
  unfold handleSetAttribute
  by_cases hw : c.writable = true
  · rw [if_neg (not_not.2 hw)]
    have hset : Turn env s c _ s.q _ := .set k value name noAck hw
    rcases hs : c.txn.setAttribute s.q k name value with ⟨_ | e, _⟩
    · rw [hs] at hset
      cases noAck <;> exact hset
    · cases noAck with
      | false => rw [hs] at hset; exact hset
      | true =>
        have hdef : Turn env s c _ s.q _ := .setDeferred k value name e.text hw
        rw [hs] at hdef
        exact hdef
  · rw [if_pos hw]
    cases noAck with
    | false => exact .kept _
    | true => exact .op _ (.addError "read-only connection") (by simp)

theorem handle_turn (r : Request) : Turn env s c r (s.handle env c r).1.q (((s.handle env c r).2.1.getD c).txn) := by
  cases r with
  | closeSocket | getCapabilities | getAttribute | getAllJobsByConstraint | sendSpoolFile =>
    exact .kept _
  | beginTransaction | abortTransaction => exact .reset _
  | commitTransaction => exact .commit
  | newCluster =>
    simp only [handle]
    by_cases hw : c.writable = true
    · have h : Turn env s c _ _ _ := .op .newCluster (.newCluster env.putErr) (by simp)
      rw [if_neg (not_not.2 hw)]
      simp only [Txn.step] at h
      rcases hn : c.txn.newCluster s.q env.putErr with ⟨e | ⟨_, t⟩, _⟩ <;>
        (rw [hn] at h; exact h)
    · rw [if_pos hw]; exact .kept _
  | newProc cluster =>
    simp only [handle]
    by_cases hw : c.writable = true
    · have h : Turn env s c _ _ _ := .op (.newProc cluster) (.newProc cluster) (by simp)
      rw [if_neg (not_not.2 hw)]
      simp only [Txn.step] at h
      rcases hn : c.txn.newProc cluster with e | ⟨p, t⟩ <;>
        (rw [hn] at h; exact h)
    · rw [if_pos hw]; exact .kept _
  | setAttribute k value name noAck => exact handleSetAttribute_turn env s c k value name noAck
  | deleteAttribute k name =>
    simp only [handle]
    by_cases hw : c.writable = true
    · rw [if_neg (not_not.2 hw)]; exact .op _ (.deleteAttribute k name) (by simp)
    · rw [if_pos hw]; exact .kept _
  | destroyProc k =>
    simp only [handle]
    by_cases hw : c.writable = true
    · rw [if_neg (not_not.2 hw)]; exact .op _ (.destroyProc k) (by simp)
    · rw [if_pos hw]; exact .kept _
  | destroyCluster cluster =>
    simp only [handle]
    by_cases hw : c.writable = true
    · rw [if_neg (not_not.2 hw)]; exact .op _ (.destroyCluster cluster) (by simp)
    · rw [if_pos hw]; exact .kept _
  | setEffectiveOwner owner =>
    have h : Turn env s c _ _ _ := .op (.setEffectiveOwner owner) (.setEffectiveOwner owner) (by simp)
    simp only [Txn.step] at h
    simp only [handle]
    rcases ho : c.txn.setEffectiveOwner s.q owner with e | t <;> (rw [ho] at h; exact h)
  | setAllowProtectedChanges val => exact .op _ (.setAllowProtectedChanges (val ≠ 0)) (by simp)
  | getJobAd | getJobByConstraint => simp only [handle]; split <;> exact .kept _
  | getNextJobByConstraint initScan =>
    -- the cursor moves, the transaction does not
    simp only [handle]
    by_cases hi : initScan = 1
    · rw [if_pos hi]; split <;> exact .kept _
    · rw [if_neg hi]; split <;> exact .kept _
  | sendSpoolFileIfNeeded | setMaterializeData | unsupported => exact .kept _
  | setJobFactory cluster num text =>
    simp only [handle]
    by_cases hc : ¬ c.writable = true ∨ cluster ≠ c.txn.active
    · rw [if_pos hc]; exact .kept _
    · rw [if_neg hc]
      have hturn : Turn env s c _ s.q _ := .factory cluster num text (by tauto)
      unfold setJobFactory
      cases env.writeErr with
      | some => exact .kept _
      | none =>
        dsimp only
        rcases hs : setAll s.q (clusterKey cluster) c.txn (s.factoryAttrs cluster num env.now) with ⟨_ | e, t⟩ <;>
          (rw [hs] at hturn; exact hturn)
  | sendMaterializeData cluster data =>
    simp only [handle]
    by_cases hc : ¬ c.writable = true ∨ cluster ≠ c.txn.active
    · rw [if_pos hc]; exact .kept _
    · rw [if_neg hc]
      have hturn : Turn env s c _ s.q _ := .items cluster data (by tauto)
      unfold sendMaterializeData
      cases env.writeErr with
      | some => exact .kept _
      | none =>
        dsimp only
        rcases hs : setAll s.q (clusterKey cluster) c.txn (s.itemAttrs cluster data) with ⟨_ | _, _⟩ <;>
          (rw [hs] at hturn; exact hturn)

theorem handle_spoolDir (r : Request) : (s.handle env c r).1.spoolDir = s.spoolDir := by
  cases r with
  | setJobFactory cluster num =>
    simp only [handle]
    split_ifs
    · rfl
    · unfold setJobFactory
      cases env.writeErr with
      | some => rfl
      | none =>
        dsimp only
        rcases setAll s.q (clusterKey cluster) c.txn (s.factoryAttrs cluster num env.now) with ⟨_ | e, t⟩ <;> rfl
  | sendMaterializeData cluster data =>
    simp only [handle]
    split_ifs
    · rfl
    · unfold sendMaterializeData
      cases env.writeErr with
      | some => rfl
      | none =>
        dsimp only
        rcases setAll s.q (clusterKey cluster) c.txn (s.itemAttrs cluster data) with ⟨_ | _, _⟩ <;> rfl
  | _ =>
    simp only [handle]
    repeat' split
    all_goals rfl

end Server

end AccessPoint
