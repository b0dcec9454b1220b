/-
Pipelined requests (internal/qmgmt/handler.go, `OpSetAttribute2` with SetNoAck; internal/queue/txn.go, `AddError` and
`Commit`).

A client that sets many attributes may ask for no acknowledgement and send the next request at once. Such a request is
never answered. If it fails, its error stays with the transaction, which then cannot be committed. The client that waits
for every answer and the one that waits for none stage the same edits; only the deferred errors tell their transactions
apart.

- `Server.handle_deferred`: one turn of the loop, beside the same turn acknowledged.
- `Server.pipelined_submit`: a whole exchange and its commit, with anything happening to the server between the
  messages.
-/
import AccessPoint.Qmgmt.Handler
import AccessPoint.Queue.System

namespace AccessPoint

open ClassAdLib List Txn

variable {E : Type} [ClassAdLib E]

/-! ## Requests without an answer -/

/-- the same request, acknowledged -/
def Request.acked : Request → Request
  | .setAttribute k value name _ => .setAttribute k value name false
  | r => r

def Request.unanswered : Request → Bool
  | .setAttribute _ _ _ noAck => noAck
  | _ => false

/-- a request that goes on with the open transaction -/
def Request.staging : Request → Bool
  | .closeSocket => false
  | .unsupported => false
  | .beginTransaction => false
  | .abortTransaction => false
  | .commitTransaction => false
  | _ => true

/-- a reply that reports an error -/
def Reply.failed : Option (Reply E) → Bool
  | some (.status rval _) => rval < 0
  | _ => false

/-- the transaction with more deferred errors -/
def Txn.defer (t : Txn E) (errs : List String) : Txn E := { t with errs := t.errs ++ errs }

def Conn.defer (c : Conn E) (errs : List String) : Conn E := { c with txn := c.txn.defer errs }

/-! ## No request looks at the deferred errors -/

namespace Txn

omit [ClassAdLib E] in
theorem defer_nil (t : Txn E) : t.defer [] = t := by
  rw [defer, append_nil]

omit [ClassAdLib E] in
theorem defer_addError (t : Txn E) (errs : List String) (msg : String) :
    (t.defer errs).addError msg = t.defer (errs ++ [msg]) := by
  simp only [defer, addError, append_assoc]

variable (q : Queue E) (t : Txn E) (errs : List String) (k : JobKey)

theorem setAttribute_defer (name value : String) :
    (t.defer errs).setAttribute q k name value =
      ((t.setAttribute q k name value).1, (t.setAttribute q k name value).2.defer errs) := by
  have hauth : authorize q (t.defer errs) k name = authorize q t k name := rfl
  unfold setAttribute
  rw [hauth]
  by_cases hvalue : value = ""
  · rw [if_pos hvalue, if_pos hvalue]
  · rw [if_neg hvalue, if_neg hvalue]
    cases authorize q t k name with
    | deny | ignore => rfl
    | allow =>
      cases (parseExpr value : Except String E) with
      | ok => rfl
      | error =>
        dsimp only
        split_ifs <;> rfl

theorem setAll_defer (sets : List (String × String)) :
    Server.setAll q k (t.defer errs) sets =
      ((Server.setAll q k t sets).1, (Server.setAll q k t sets).2.defer errs) := by
  induction sets generalizing t with
  | nil => rfl
  | cons set sets ih =>
    obtain ⟨name, value⟩ := set
    unfold Server.setAll
    rw [setAttribute_defer]
    rcases t.setAttribute q k name value with ⟨_ | _, t'⟩
    · exact ih t'
    · rfl

theorem deleteAttribute_defer (name : String) :
    (t.defer errs).deleteAttribute q k name =
    ((t.deleteAttribute q k name).1, (t.deleteAttribute q k name).2.defer errs) := by
  have hauth : authorize q (t.defer errs) k name = authorize q t k name := rfl
  unfold deleteAttribute
  rw [hauth]
  cases authorize q t k name with
  | deny | ignore => rfl
  | allow =>
    have hpending : (t.defer errs).pending.lookup k = t.pending.lookup k := rfl
    dsimp only
    rw [hpending]
    cases t.pending.lookup k <;> rfl

theorem destroyProc_defer :
    (t.defer errs).destroyProc q k = ((t.destroyProc q k).1, (t.destroyProc q k).2.defer errs) := by
  have hanon : (t.defer errs).anonymous = t.anonymous := rfl
  have howner : checkOwner q (t.defer errs) k = checkOwner q t k := rfl
  unfold destroyProc
  rw [hanon, howner]
  split_ifs
  · rfl
  · cases (committedOwner q k).bind (checkOwner q t k) <;> rfl

theorem destroyCluster_defer (c : ℤ) :
    (t.defer errs).destroyCluster q c = ((t.destroyCluster q c).1, (t.destroyCluster q c).2.defer errs) := by
  have hanon : (t.defer errs).anonymous = t.anonymous := rfl
  have howner : checkOwner q (t.defer errs) = checkOwner q t := rfl
  unfold destroyCluster
  rw [hanon, howner]
  split_ifs
  · rfl
  · cases (committedOwner q (clusterKey c)).bind (checkOwner q t (clusterKey c)) with
    | some => rfl
    | none =>
      dsimp only
      cases (clusterProcs q c).findSome? fun p => checkOwner q t p.1 (q.jobUser p.2) <;> rfl

theorem setEffectiveOwner_defer (owner : String) :
    (t.defer errs).setEffectiveOwner q owner = (t.setEffectiveOwner q owner).map (·.defer errs) := by
  have hauth : (t.defer errs).authUser = t.authUser := rfl
  have hsuper : (t.defer errs).isSuper = t.isSuper := rfl
  unfold setEffectiveOwner
  rw [hauth, hsuper]
  split_ifs <;> rfl

omit [ClassAdLib E] in
theorem newCluster_defer (putErr : Option String) :
    (t.defer errs).newCluster q putErr =
      ((t.newCluster q putErr).1.map fun r => (r.1, r.2.defer errs), (t.newCluster q putErr).2) := by
  have hanon : (t.defer errs).anonymous = t.anonymous := rfl
  unfold newCluster
  rw [hanon]
  split_ifs
  · rfl
  · rcases q.allocClusterID putErr with ⟨_ | _, _⟩ <;> rfl

omit [ClassAdLib E] in
theorem newProc_defer (cluster : ℤ) :
    (t.defer errs).newProc cluster = (t.newProc cluster).map fun r => (r.1, r.2.defer errs) := by
  have hanon : (t.defer errs).anonymous = t.anonymous := rfl
  have hactive : (t.defer errs).active = t.active := rfl
  unfold newProc
  rw [hanon, hactive]
  split_ifs <;> rfl

end Txn

/-! ## One turn -/

namespace Server

variable (env : Env E) (s : Server E) (c : Conn E) (errs : List String)

theorem handleSetAttribute_deferred (k : JobKey) (value name : String) (noAck : Bool) :
    ∃ new, s.handleSetAttribute (c.defer errs) k value name noAck =
        ((s.handleSetAttribute c k value name false).1.defer (errs ++ new),
          if noAck then none else (s.handleSetAttribute c k value name false).2) ∧
      new.length = if noAck && Reply.failed (s.handleSetAttribute c k value name false).2 then 1 else 0 := by
  have hwritable : (c.defer errs).writable = c.writable := rfl
  unfold handleSetAttribute
  rw [hwritable]
  by_cases hw : ¬ c.writable = true
  · simp only [if_pos hw]
    cases noAck with
    | false => exact ⟨[], by rw [append_nil]; rfl, rfl⟩
    | true => exact ⟨["read-only connection"], by simp only [Conn.defer, defer_addError]; rfl, rfl⟩
  · simp only [if_neg hw]
    have hset : (c.defer errs).txn.setAttribute s.q k name value =
        ((c.txn.setAttribute s.q k name value).1, (c.txn.setAttribute s.q k name value).2.defer errs) :=
      setAttribute_defer s.q c.txn errs k name value
    rw [hset]
    rcases c.txn.setAttribute s.q k name value with ⟨_ | e, _⟩
    · cases noAck with
      | false | true => exact ⟨[], by rw [append_nil]; rfl, rfl⟩
    · cases noAck with
      | false => exact ⟨[], by rw [append_nil]; rfl, rfl⟩
      | true => exact ⟨[e.text], by simp only [Conn.defer, defer_addError]; rfl, rfl⟩

variable {r : Request}

/-- a request that is answered does to a connection with deferred errors what it does to the one without -/
theorem handle_defer (hstaging : r.staging = true) (hset : ∀ k value name noAck, r ≠ .setAttribute k value name noAck) :
    s.handle env (c.defer errs) r =
      ((s.handle env c r).1, (s.handle env c r).2.1.map (·.defer errs), (s.handle env c r).2.2) := by
  have hwritable : (c.defer errs).writable = c.writable := rfl
  have htxn : (c.defer errs).txn = c.txn.defer errs := rfl
  cases r with
  | closeSocket | unsupported | beginTransaction | abortTransaction | commitTransaction => cases hstaging
  | setAttribute k value name noAck => exact absurd rfl (hset k value name noAck)
  | getCapabilities | setAllowProtectedChanges | getAttribute | getAllJobsByConstraint => rfl
  | newCluster =>
    simp only [handle]
    rw [hwritable, htxn, newCluster_defer]
    by_cases hw : ¬ c.writable = true
    · simp only [if_pos hw]
      rfl
    · simp only [if_neg hw]
      rcases c.txn.newCluster s.q env.putErr with ⟨e | ⟨_, t⟩, _⟩ <;> rfl
  | newProc cluster =>
    simp only [handle]
    rw [hwritable, htxn, newProc_defer]
    by_cases hw : ¬ c.writable = true
    · simp only [if_pos hw]
      rfl
    · simp only [if_neg hw]
      rcases c.txn.newProc cluster with e | ⟨p, t⟩ <;> rfl
  | deleteAttribute =>
    simp only [handle]
    rw [hwritable, htxn, deleteAttribute_defer]
    split_ifs <;> rfl
  | destroyProc =>
    simp only [handle]
    rw [hwritable, htxn, destroyProc_defer]
    split_ifs <;> rfl
  | destroyCluster =>
    simp only [handle]
    rw [hwritable, htxn, destroyCluster_defer]
    split_ifs <;> rfl
  | setEffectiveOwner owner =>
    simp only [handle]
    rw [htxn, setEffectiveOwner_defer]
    cases c.txn.setEffectiveOwner s.q owner <;> rfl
  | getJobAd k =>
    have hread : (c.defer errs).txn.getJobAd s.q k = c.txn.getJobAd s.q k := rfl
    simp only [handle]
    rw [hread]
    cases c.txn.getJobAd s.q k <;> rfl
  | getJobByConstraint constraint =>
    simp only [handle]
    cases s.snapshot env constraint <;> rfl
  | getNextJobByConstraint initScan constraint =>
    -- the cursor is not part of the transaction
    simp only [handle]
    by_cases hi : initScan = 1
    · simp only [if_pos hi]
      cases (s.snapshot env constraint)[0]? <;> rfl
    · have hstate : (c.defer errs).scanState[(c.defer errs).scanPos]? = c.scanState[c.scanPos]? := rfl
      simp only [if_neg hi]
      rw [hstate]
      cases c.scanState[c.scanPos]? <;> rfl
  | sendSpoolFile | sendSpoolFileIfNeeded | setMaterializeData => rfl
  | setJobFactory cluster num =>
    have hactive : (c.defer errs).txn.active = c.txn.active := rfl
    simp only [handle]
    rw [hwritable, hactive]
    by_cases hc : ¬ c.writable = true ∨ cluster ≠ c.txn.active
    · simp only [if_pos hc]
      rfl
    · simp only [if_neg hc]
      unfold setJobFactory
      cases env.writeErr with
      | some => rfl
      | none =>
        dsimp only
        rw [htxn, setAll_defer]
        rcases setAll s.q (clusterKey cluster) c.txn (s.factoryAttrs cluster num env.now) with ⟨_ | e, t⟩ <;> rfl
  | sendMaterializeData cluster data =>
    have hactive : (c.defer errs).txn.active = c.txn.active := rfl
    simp only [handle]
    rw [hwritable, hactive]
    by_cases hc : ¬ c.writable = true ∨ cluster ≠ c.txn.active
    · simp only [if_pos hc]
      rfl
    · simp only [if_neg hc]
      unfold sendMaterializeData
      cases env.writeErr with
      | some => rfl
      | none =>
        dsimp only
        rw [htxn, setAll_defer]
        rcases setAll s.q (clusterKey cluster) c.txn (s.itemAttrs cluster data) with ⟨_ | _, _⟩ <;> rfl

/-- a request that goes on with the transaction keeps the connection open -/
theorem handle_open (hstaging : r.staging = true) : ∃ c', (s.handle env c r).2.1 = some c' := by
  cases r with
  | closeSocket | unsupported => cases hstaging
  | newCluster =>
    simp only [handle]
    split_ifs
    · rcases c.txn.newCluster s.q env.putErr with ⟨e | ⟨_, t⟩, _⟩ <;> exact ⟨_, rfl⟩
    · exact ⟨_, rfl⟩
  | newProc cluster =>
    simp only [handle]
    split_ifs
    · rcases c.txn.newProc cluster with e | ⟨p, t⟩ <;> exact ⟨_, rfl⟩
    · exact ⟨_, rfl⟩
  | deleteAttribute | destroyProc | destroyCluster => simp only [handle]; split_ifs <;> exact ⟨_, rfl⟩
  | setEffectiveOwner owner => simp only [handle]; cases c.txn.setEffectiveOwner s.q owner <;> exact ⟨_, rfl⟩
  | getJobAd k => simp only [handle]; cases c.txn.getJobAd s.q k <;> exact ⟨_, rfl⟩
  | getJobByConstraint constraint => simp only [handle]; cases s.snapshot env constraint <;> exact ⟨_, rfl⟩
  | getNextJobByConstraint => simp only [handle]; split <;> exact ⟨_, rfl⟩
  | setJobFactory cluster num text =>
    simp only [handle]
    split_ifs
    · exact ⟨_, rfl⟩
    · rcases s.setJobFactory env c.txn cluster num text with ⟨_ | _, s', t⟩ <;> exact ⟨_, rfl⟩
  | sendMaterializeData cluster data =>
    simp only [handle]
    split_ifs
    · exact ⟨_, rfl⟩
    · rcases s.sendMaterializeData env c.txn cluster data with ⟨_ | _, _, _⟩ <;> exact ⟨_, rfl⟩
  | _ => exact ⟨_, rfl⟩

/-- **One turn, beside the same turn acknowledged.** The server is the same, the reply is the same unless none is sent,
and the connection is the same but for one more deferred error when an unanswered request fails. -/
theorem handle_deferred (hstaging : r.staging = true) :
    ∃ c' new, (s.handle env c r.acked).2.1 = some c' ∧
      s.handle env (c.defer errs) r =
        ((s.handle env c r.acked).1, some (c'.defer (errs ++ new)),
          if r.unanswered then none else (s.handle env c r.acked).2.2) ∧
      new.length = if r.unanswered && Reply.failed (s.handle env c r.acked).2.2 then 1 else 0 := by
  by_cases hset : ∃ k value name noAck, r = .setAttribute k value name noAck
  · obtain ⟨k, value, name, noAck, rfl⟩ := hset
    obtain ⟨new, hnew, hlen⟩ := s.handleSetAttribute_deferred c errs k value name noAck
    refine ⟨(s.handleSetAttribute c k value name false).1, new, rfl, ?_, hlen⟩
    simp only [handle, Request.acked, Request.unanswered, hnew]
    rfl
  · have hplain : ∀ k value name noAck, r ≠ .setAttribute k value name noAck := fun k value name noAck he =>
      hset ⟨k, value, name, noAck, he⟩
    have hacked : r.acked = r := by
      cases r with
      | setAttribute k value name noAck => exact absurd rfl (hplain k value name noAck)
      | _ => rfl
    have hanswered : r.unanswered = false := by
      cases r with
      | setAttribute k value name noAck => exact absurd rfl (hplain k value name noAck)
      | _ => rfl
    obtain ⟨c', hc'⟩ := handle_open env s c hstaging
    refine ⟨c', [], by rw [hacked]; exact hc', ?_, by rw [hanswered]; rfl⟩
    rw [handle_defer env s c errs hstaging hplain, hacked, hanswered, hc', append_nil]
    rfl

/-! ## Whole exchanges -/

/-- one message of a connection; `meanwhile` is what the other connections and the schedd do to the server before it is
handled -/
structure Message (E : Type) where
  meanwhile : Server E → Server E
  env : Env E
  req : Request

def Message.acked (m : Message E) : Message E := { m with req := m.req.acked }

/-- the messages of one connection, and what is answered to each -/
def exchange : Server E → Conn E → List (Message E) → Server E × Conn E × List (Option (Reply E))
  | s, c, [] => (s, c, [])
  | s, c, m :: ms =>
    let turn := (m.meanwhile s).handle m.env c m.req
    let rest := exchange turn.1 (turn.2.1.getD c) ms
    (rest.1, rest.2.1, turn.2.2 :: rest.2.2)

/-- the unanswered requests that an acknowledgement would have reported as failed -/
def failures (ms : List (Message E)) (acks : List (Option (Reply E))) : ℕ :=
  (ms.zip acks).countP fun p => p.1.req.unanswered && Reply.failed p.2

theorem exchange_deferred {ms : List (Message E)} (hstaging : ∀ m ∈ ms, m.req.staging = true) (s : Server E)
    (c : Conn E)
    (errs : List String) :
    ∃ new, (exchange s (c.defer errs) ms).1 = (exchange s c (ms.map Message.acked)).1 ∧
      (exchange s (c.defer errs) ms).2.1 = (exchange s c (ms.map Message.acked)).2.1.defer (errs ++ new) ∧
      (exchange s (c.defer errs) ms).2.2 =
        List.zipWith (fun m ack =>
          if m.req.unanswered then none else ack) ms (exchange s c (ms.map Message.acked)).2.2 ∧
      new.length = failures ms (exchange s c (ms.map Message.acked)).2.2 := by
  induction ms generalizing s c errs with
  | nil => exact ⟨[], rfl, by rw [append_nil]; rfl, rfl, rfl⟩
  | cons m ms ih =>
    obtain ⟨c', new, hopen, hturn, hlen⟩ :=
      handle_deferred m.env (m.meanwhile s) c errs (hstaging m mem_cons_self)
    obtain ⟨more, hserver, hconn, hreplies, hmore⟩ :=
      ih (fun m' hm => hstaging m' (mem_cons_of_mem m hm)) ((m.meanwhile s).handle m.env c m.req.acked).1 c'
        (errs ++ new)
    refine ⟨new ++ more, ?_⟩
    rw [map_cons]
    simp only [exchange, Message.acked, hturn, hopen, Option.getD_some]
    refine ⟨hserver, by rw [hconn, append_assoc], ?_, ?_⟩
    · rw [hreplies, zipWith_cons_cons]
    · rw [length_append, hlen, hmore, failures, failures, zip_cons_cons, countP_cons, Nat.add_comm]

/-- **Pipelining changes nothing but when errors are seen.** Run any requests of an open transaction, with any of its
SetAttribute requests unanswered, and beside it the same requests all acknowledged; the server may change in any way
between two messages, as long as it does so in both. The server ends the same, and every request that is answered gets
the same answer. If no unanswered request failed, the connections are the same, so that the commit does the same. If one
did, the commit is refused, and nothing of the transaction reaches the queue. -/
theorem pipelined_submit (ms : List (Message E)) (hstaging : ∀ m ∈ ms, m.req.staging = true) (s : Server E) (c : Conn E)
    (meanwhile : Server E → Server E) (env : Env E) :
    let piped := exchange s c ms
    let plain := exchange s c (ms.map Message.acked)
    let commit := fun x :
      Server E × Conn E × List (Option (Reply E)) => (meanwhile x.1).handle env x.2.1 .commitTransaction
    piped.1 = plain.1 ∧
      piped.2.2 = zipWith (fun m ack => if m.req.unanswered then none else ack) ms plain.2.2 ∧
      (failures ms plain.2.2 = 0 → piped.2.1 = plain.2.1 ∧ commit piped = commit plain) ∧
      (failures ms plain.2.2 ≠ 0 → (commit piped).1.q = (meanwhile piped.1).q ∧
        ∃ reason, (commit piped).2.2 = some (.commit (some reason))) := by
  intro piped plain commit
  obtain ⟨new, hserver, hconn, hreplies, hlen⟩ := exchange_deferred hstaging s c []
  have hfrom : c.defer [] = c := by
    rw [Conn.defer, defer_nil]
  rw [hfrom] at hserver hconn hreplies
  rw [nil_append] at hconn
  refine ⟨hserver, hreplies, fun hnone => ?_, fun hsome => ?_⟩
  · have hnil : new = [] := length_eq_zero_iff.1 (hlen.trans hnone)
    have hsame : piped.2.1 = plain.2.1 := by
      rw [hconn, hnil, Conn.defer, defer_nil]
    refine ⟨hsame, ?_⟩
    simp only [commit]
    rw [hsame, hserver]
  · have herrs : piped.2.1.txn.errs ≠ [] := by
      rw [hconn]
      intro hnil
      have hempty := (append_eq_nil_iff.1 hnil).2
      rw [hempty] at hlen
      exact hsome hlen.symm
    have hrefused : ∃ e, commitError (meanwhile piped.1).q piped.2.1.txn env.now env.updErr = some e := by
      unfold commitError
      rw [if_pos herrs]
      exact ⟨_, rfl⟩
    obtain ⟨_, he⟩ := hrefused
    simp only [commit, handle, Txn.commit, he]
    exact ⟨trivial, _, rfl⟩

/-- alice raises the priority of the job and sets an attribute to nothing, without waiting for an answer -/
def aliceHurries : List (Message Value) :=
  [.setAttribute ⟨1, 0⟩ "7" "JobPrio" true, .setAttribute ⟨1, 0⟩ "" "Args" true,
    .getAttribute .int ⟨1, 0⟩ "JobPrio"].map fun r =>
    ⟨fun s => s, ⟨300, none, none, none, fun _ => none⟩, r⟩

def aliceServer : Server Value := ⟨aliceQueue, "/spool", ∅⟩

def aliceConn : Conn Value := aliceServer.connect "alice@pool" true

theorem alice_commit_refused :
    failures aliceHurries (exchange aliceServer aliceConn (aliceHurries.map Message.acked)).2.2 = 1 ∧
      ((exchange aliceServer aliceConn aliceHurries).1.handle ⟨301, none, none, none, fun _ => none⟩
        (exchange aliceServer aliceConn aliceHurries).2.1 .commitTransaction).1.q =
          (exchange aliceServer aliceConn aliceHurries).1.q := by
  have hone : failures aliceHurries (exchange aliceServer aliceConn (aliceHurries.map Message.acked)).2.2 =
    1 := by decide +kernel
  obtain ⟨-, -, -, hrefused⟩ := pipelined_submit aliceHurries (by decide) aliceServer aliceConn (fun s => s)
    ⟨301, none, none, none, fun _ => none⟩
  exact ⟨hone, (hrefused (by rw [hone]; decide)).1⟩

end Server

end AccessPoint
