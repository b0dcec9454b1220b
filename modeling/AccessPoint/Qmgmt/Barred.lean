/-
Connections that may not write (internal/qmgmt/handler.go, internal/queue/authz.go).

Two gates keep such a connection from changing the queue. On a connection of the read command `Handle` itself refuses
every edit. A caller without an identity gets transactions that refuse every edit. A commit passes both gates, and the
transaction is replaced at each begin, abort and commit; what holds between any two requests is that the gate is still
there and nothing is staged (`Conn.Barred`), and a commit of nothing changes nothing.

- `handle_barred`: one request on such a connection leaves the queue, and the connection as barred as before.
- `barred_connection_keeps_queue`: so does every sequence of requests.
-/
import AccessPoint.Qmgmt.Handler
import AccessPoint.Queue.System

namespace AccessPoint

open ClassAdLib

variable {E : Type}

namespace Txn

/-- nothing is staged and nothing is marked destroyed -/
structure Blank (t : Txn E) : Prop where
  pending : t.pending = ∅
  destroyed : t.destroyed = []

theorem Blank.addError {t : Txn E} (h : t.Blank) (msg : String) : (t.addError msg).Blank := ⟨h.pending, h.destroyed⟩

/-! ## Edits without an identity -/

section

variable {t : Txn E} (ha : t.authUser = "")
include ha

theorem anonymous_of_authUser : t.anonymous = true := decide_eq_true ha

variable (q : Queue E)

theorem newCluster_unidentified (putErr : Option String) : t.newCluster q putErr = (.error errAnonymous, q) :=
  if_pos (anonymous_of_authUser ha)

theorem newProc_unidentified (cluster : ℤ) : t.newProc cluster = .error errAnonymous :=
  if_pos (anonymous_of_authUser ha)

variable [ClassAdLib E] (k : JobKey)

theorem authorize_unidentified (name : String) : t.authorize q k name = .deny errAnonymous := by
  simp only [authorize, anonymous_of_authUser ha, if_true]

theorem setAttribute_unidentified (name value : String) : (t.setAttribute q k name value).2 = t := by
  unfold setAttribute
  rw [authorize_unidentified ha]
  split_ifs <;> rfl

theorem setAll_unidentified (attrs : List (String × String)) : (Server.setAll q k t attrs).2 = t := by
  induction attrs with
  | nil => rfl
  | cons p rest ih =>
    have hset := setAttribute_unidentified ha q k p.1 p.2
    unfold Server.setAll
    rcases hs : t.setAttribute q k p.1 p.2 with ⟨_ | _, _⟩ <;> rw [hs] at hset <;> subst hset
    · exact ih
    · rfl

theorem deleteAttribute_unidentified (name : String) : (t.deleteAttribute q k name).2 = t := by
  unfold deleteAttribute
  rw [authorize_unidentified ha]

theorem destroyProc_unidentified : (t.destroyProc q k).2 = t := by
  unfold destroyProc
  rw [if_pos (anonymous_of_authUser ha)]

theorem destroyCluster_unidentified (c : ℤ) : (t.destroyCluster q c).2 = t := by
  unfold destroyCluster
  rw [if_pos (anonymous_of_authUser ha)]

end

/-! ## The transaction of such a connection -/

variable [ClassAdLib E]

/-- whether or not the unmapped user is itself the empty name -/
theorem begin_unidentified (q : Queue E) : (begin q "").authUser = "" := by
  unfold begin
  exact ite_self _

theorem Blank.commitBatch {t : Txn E} (h : t.Blank) (q : Queue E) (now : ℤ) : t.commitBatch q now = ∅ := by
  unfold Txn.commitBatch stageClusters
  rw [h.pending]
  rfl

/-- **A commit of nothing changes nothing**, whether or not deferred errors refuse it. -/
theorem Blank.commit {t : Txn E} (h : t.Blank) (q : Queue E) (now : ℤ) (updErr : Option String) :
    (t.commit q now updErr).2.1 = q := by
  unfold Txn.commit
  cases t.commitError q now updErr with
  | some => rfl
  | none =>
    simp only [committed, h.commitBatch, h.destroyed]
    have hcoll : KeyMap.eraseAll (q.coll.update ∅) [] = q.coll := AList.empty_union
    have hfactories : commitFactories q.factories [] (∅ : KeyMap JobKey (Ad E)) = q.factories := rfl
    rw [hcoll, hfactories]

/-- whoever the effective owner becomes, the transaction stages what it did and authenticates as it did -/
theorem setEffectiveOwner_frame {q : Queue E} {t t' : Txn E} {owner : String}
    (h : t.setEffectiveOwner q owner = .ok t') :
    t'.authUser = t.authUser ∧ t'.pending = t.pending ∧ t'.destroyed = t.destroyed := by
  unfold setEffectiveOwner at h
  split_ifs at h <;> cases h <;> exact ⟨rfl, rfl, rfl⟩

end Txn

/-- a connection of the read command, or of a caller without an identity, between two requests -/
structure Conn.Barred (c : Conn E) : Prop where
  gate : c.writable = false ∨ c.user = ""
  unidentified : c.user = "" → c.txn.authUser = ""
  blank : c.txn.Blank

theorem Conn.Barred.authUser {c : Conn E} (h : c.Barred) (hw : c.writable = true) : c.txn.authUser = "" := by
  rcases h.gate with hgate | hu
  · rw [hw] at hgate; cases hgate
  · exact h.unidentified hu

/-- a transaction that authenticates as the connection's did and stages nothing may take its place -/
theorem Conn.Barred.withTxn {c : Conn E} (h : c.Barred) {t : Txn E} (ha : t.authUser = c.txn.authUser)
    (hb : t.Blank) : Conn.Barred { c with txn := t } :=
  ⟨h.gate, fun hu => ha.trans (h.unidentified hu), hb⟩

namespace Server

/-- what a request leaves: the same queue and, unless the connection is closed, a barred one -/
def Harmless (s : Server E) (r : Server E × Option (Conn E) × Option (Reply E)) : Prop :=
  r.1.q = s.q ∧ ∀ c, r.2.1 = some c → c.Barred

variable {s : Server E} {c : Conn E}

theorem Harmless.kept {s' : Server E} (hq : s'.q = s.q) (h : c.Barred) (reply : Option (Reply E)) :
    s.Harmless (s', some c, reply) :=
  ⟨hq, fun _ hc => Option.some.inj hc ▸ h⟩

theorem Harmless.closed (s : Server E) : s.Harmless (s, none, none) := ⟨rfl, fun _ hc => nomatch hc⟩

variable [ClassAdLib E]

theorem begin_blank (s : Server E) (user : String) (allow : Bool) : (s.begin user allow).Blank := ⟨rfl, rfl⟩

theorem connect_barred (s : Server E) {user : String} {writable : Bool} (h : writable = false ∨ user = "") :
    (s.connect user writable).Barred where
  gate := h
  unidentified := by
    rintro rfl
    exact Txn.begin_unidentified s.q
  blank := s.begin_blank user false

/-! ## One request -/

/-- begin, abort and commit all go on with a fresh transaction -/
theorem reset_barred (s : Server E) (h : c.Barred) :
    Conn.Barred { c with txn := s.begin c.user c.allowProtected } where
  gate := h.gate
  unidentified := by
    intro hu
    change (Txn.begin s.q c.user).authUser = ""
    rw [show c.user = "" from hu, Txn.begin_unidentified]
  blank := s.begin_blank c.user c.allowProtected

theorem handleSetAttribute_barred (s : Server E) (h : c.Barred) (k : JobKey) (value name : String) (noAck : Bool) :
    (s.handleSetAttribute c k value name noAck).1.Barred := by
  have hdefer : ∀ msg, Conn.Barred { c with txn := c.txn.addError msg } := fun msg =>
    h.withTxn rfl (h.blank.addError msg)
  unfold handleSetAttribute
  by_cases hw : c.writable = true
  · rw [if_neg (not_not.2 hw)]
    have hset := Txn.setAttribute_unidentified (h.authUser hw) s.q k name value
    rcases hs : c.txn.setAttribute s.q k name value with ⟨e, t⟩
    rw [hs] at hset
    obtain rfl : t = c.txn := hset
    cases noAck with
    | false => exact h
    | true =>
      cases e with
      | none => exact h
      | some e => exact hdefer e.text
  · rw [if_pos hw]
    cases noAck with
    | false => exact h
    | true => exact hdefer "read-only connection"

/-- the file is written before the attributes are refused, the queue and the transaction stay -/
theorem setJobFactory_barred (env : Env E) (s : Server E) (h : c.Barred) (hw : c.writable = true) (cluster num : ℤ)
    (digest : String) :
    (s.setJobFactory env c.txn cluster num digest).2.1.q = s.q ∧
      (s.setJobFactory env c.txn cluster num digest).2.2 = c.txn := by
  unfold setJobFactory
  cases env.writeErr with
  | some => exact ⟨rfl, rfl⟩
  | none =>
    have hall := Txn.setAll_unidentified (h.authUser hw) s.q (clusterKey cluster) (s.factoryAttrs cluster num env.now)
    dsimp only
    rcases hs : setAll s.q (clusterKey cluster) c.txn (s.factoryAttrs cluster num env.now) with ⟨_ | _, _⟩ <;>
      (rw [hs] at hall; exact ⟨rfl, hall⟩)

theorem sendMaterializeData_barred (env : Env E) (s : Server E) (h : c.Barred) (hw : c.writable = true) (cluster : ℤ)
    (data : String) :
    (s.sendMaterializeData env c.txn cluster data).2.1.q = s.q ∧
      (s.sendMaterializeData env c.txn cluster data).2.2 = c.txn := by
  unfold sendMaterializeData
  cases env.writeErr with
  | some => exact ⟨rfl, rfl⟩
  | none =>
    have hall := Txn.setAll_unidentified (h.authUser hw) s.q (clusterKey cluster) (s.itemAttrs cluster data)
    dsimp only
    rcases hs : setAll s.q (clusterKey cluster) c.txn (s.itemAttrs cluster data) with ⟨_ | _, _⟩ <;>
      (rw [hs] at hall; exact ⟨rfl, hall⟩)

/-- **One request on a barred connection.** -/
theorem handle_barred (env : Env E) (s : Server E) (h : c.Barred) (r : Request) :
    s.Harmless (s.handle env c r) := by
  cases r with
  | closeSocket | unsupported => exact .closed s
  | getCapabilities | getAttribute | getAllJobsByConstraint | sendSpoolFile =>
    exact .kept rfl h _
  | beginTransaction | abortTransaction => exact .kept rfl (s.reset_barred h) _
  | commitTransaction => exact .kept (h.blank.commit s.q env.now env.updErr) (reset_barred _ h) _
  | newCluster =>
    simp only [handle]
    by_cases hw : c.writable = true
    · rw [if_neg (not_not.2 hw), Txn.newCluster_unidentified (h.authUser hw)]
      exact .kept rfl h _
    · rw [if_pos hw]; exact .kept rfl h _
  | newProc =>
    simp only [handle]
    by_cases hw : c.writable = true
    · rw [if_neg (not_not.2 hw), Txn.newProc_unidentified (h.authUser hw)]
      exact .kept rfl h _
    · rw [if_pos hw]; exact .kept rfl h _
  | setAttribute k value name noAck => exact .kept rfl (s.handleSetAttribute_barred h k value name noAck) _
  | deleteAttribute =>
    simp only [handle]
    by_cases hw : c.writable = true
    · rw [if_neg (not_not.2 hw), Txn.deleteAttribute_unidentified (h.authUser hw)]
      exact .kept rfl h _
    · rw [if_pos hw]; exact .kept rfl h _
  | destroyProc =>
    simp only [handle]
    by_cases hw : c.writable = true
    · rw [if_neg (not_not.2 hw), Txn.destroyProc_unidentified (h.authUser hw)]
      exact .kept rfl h _
    · rw [if_pos hw]; exact .kept rfl h _
  | destroyCluster =>
    simp only [handle]
    by_cases hw : c.writable = true
    · rw [if_neg (not_not.2 hw), Txn.destroyCluster_unidentified (h.authUser hw)]
      exact .kept rfl h _
    · rw [if_pos hw]; exact .kept rfl h _
  | setEffectiveOwner owner =>
    -- not gated at all: it changes whose name the edits would carry, never whether they are allowed
    simp only [handle]
    rcases ho : c.txn.setEffectiveOwner s.q owner with e | t
    · exact .kept rfl h _
    · obtain ⟨hauth, hpending, hdestroyed⟩ := Txn.setEffectiveOwner_frame ho
      exact .kept rfl (h.withTxn hauth ⟨hpending.trans h.blank.pending, hdestroyed.trans h.blank.destroyed⟩) _
  | setAllowProtectedChanges val =>
    have hconn : Conn.Barred { c with
        allowProtected := val ≠ 0, txn := (c.txn.setAllowProtectedChanges (val ≠ 0)).2 } :=
      ⟨h.gate, h.unidentified, h.blank.pending, h.blank.destroyed⟩
    exact .kept rfl hconn _
  | getJobAd | getJobByConstraint => simp only [handle]; split <;> exact .kept rfl h _
  | getNextJobByConstraint initScan =>
    simp only [handle]
    have hscan : ∀ (ads : List (Ad E)) (n : ℕ), Conn.Barred { c with scanState := ads, scanPos := n } :=
      fun ads n => ⟨h.gate, h.unidentified, h.blank⟩
    by_cases hi : initScan = 1
    · rw [if_pos hi]; split <;> exact .kept rfl (hscan _ _) _
    · rw [if_neg hi]; split <;> exact .kept rfl (hscan _ _) _
  | sendSpoolFileIfNeeded | setMaterializeData => exact .kept rfl h _
  | setJobFactory cluster num text =>
    simp only [handle]
    by_cases hc : ¬ c.writable = true ∨ cluster ≠ c.txn.active
    · rw [if_pos hc]; exact .kept rfl h _
    · rw [if_neg hc]
      obtain ⟨hq, ht⟩ := setJobFactory_barred env s h (not_not.1 fun hw => hc (.inl hw)) cluster num text
      rcases hf : s.setJobFactory env c.txn cluster num text with ⟨_ | _, s', t⟩ <;>
        (rw [hf] at hq ht; obtain rfl : t = c.txn := ht; exact .kept hq h _)
  | sendMaterializeData cluster data =>
    simp only [handle]
    by_cases hc : ¬ c.writable = true ∨ cluster ≠ c.txn.active
    · rw [if_pos hc]; exact .kept rfl h _
    · rw [if_neg hc]
      obtain ⟨hq, ht⟩ := sendMaterializeData_barred env s h (not_not.1 fun hw => hc (.inl hw)) cluster data
      rcases hf : s.sendMaterializeData env c.txn cluster data with ⟨_ | ⟨_, _⟩, _, t⟩ <;>
        (rw [hf] at hq ht; obtain rfl : t = c.txn := ht; exact .kept hq h _)

/-! ## Whole connections -/

/-- one turn of the loop; nothing happens once the connection is closed -/
def turn (p : Server E × Option (Conn E)) (m : Env E × Request) : Server E × Option (Conn E) :=
  match p.2 with
  | none => p
  | some c => ((p.1.handle m.1 c m.2).1, (p.1.handle m.1 c m.2).2.1)

/-- `Handle`: the requests of one connection, in order -/
def serve (s : Server E) (c : Conn E) (msgs : List (Env E × Request)) : Server E × Option (Conn E) :=
  msgs.foldl turn (s, some c)

theorem turn_barred {q : Queue E} {p : Server E × Option (Conn E)}
    (h : p.1.q = q ∧ ∀ c, p.2 = some c → c.Barred) (m : Env E × Request) :
    (turn p m).1.q = q ∧ ∀ c, (turn p m).2 = some c → c.Barred := by
  obtain ⟨s, conn⟩ := p
  cases conn with
  | none => exact h
  | some c =>
    obtain ⟨hq, hbarred⟩ := handle_barred m.1 s (h.2 c rfl) m.2
    exact ⟨hq.trans h.1, hbarred⟩

/-- **Anonymous and read-only connections change nothing.** Whatever a connection of the read command, or of a caller
without an identity, asks for, in whatever order and whatever fails on the way, the queue it leaves is the queue it
found: every stored ad, the cluster-id counter, the factory set and the history. -/
theorem barred_connection_keeps_queue (s : Server E) (user : String) (writable : Bool)
    (h : writable = false ∨ user = "") (msgs : List (Env E × Request)) :
    (s.serve (s.connect user writable) msgs).1.q = s.q := by
  have hopen : ∀ c, some (s.connect user writable) = some c → c.Barred := by
    rintro c ⟨⟩
    exact s.connect_barred h
  have hrun : (s.serve (s.connect user writable) msgs).1.q = s.q ∧
      ∀ c, (s.serve (s.connect user writable) msgs).2 = some c → c.Barred :=
    Runs.foldl_inv (P := fun p : Server E × Option (Conn E) => p.1.q = s.q ∧ ∀ c, p.2 = some c → c.Barred)
      (fun p m hp => turn_barred hp m) ⟨rfl, hopen⟩ msgs
  exact hrun.1

end Server

/-! ## A connection without an identity -/

/-- nothing fails and no constraint parses -/
def calm (now : ℤ) : Env Value := ⟨now, none, none, none, fun _ => none⟩

/-- a writable connection of a caller without an identity tries every kind of edit -/
def strangerAsks : List (Env Value × Request) :=
  [.setEffectiveOwner "alice", .newCluster, .setAttribute ⟨1, 0⟩ "7" "JobPrio" false,
    .setAttribute ⟨1, 0⟩ "7" "JobPrio" true, .commitTransaction, .destroyCluster 1, .deleteAttribute ⟨1, 0⟩ "Cmd",
    .setJobFactory (-1) 4 "Queue 4", .abortTransaction, .destroyProc ⟨1, 0⟩, .commitTransaction].map fun r =>
      (calm 300, r)

theorem stranger_leaves_alice_alone :
    Server.q (Server.serve ⟨aliceQueue, "/spool", ∅⟩ (Server.connect ⟨aliceQueue, "/spool", ∅⟩ "" true)
      strangerAsks).1 = aliceQueue :=
  Server.barred_connection_keeps_queue ⟨aliceQueue, "/spool", ∅⟩ "" true (.inr rfl) strangerAsks

end AccessPoint
