/-
The identity of late-materialized procs (internal/queue/factory.go, `MaterializeProc`; internal/factory/materialize.go).

`Txn.materialize` forces Owner and User onto every proc it commits. `MaterializeProc` does not: a materialized proc has
whatever the digest's override says, and otherwise what it inherits from the cluster ad. An assignment of the digest may
name any attribute through `+Attr` or `MY.Attr`.

- `clusterIdentity_stable`: no engine write changes the identity on the cluster ad.
- `made_identity_iff`: exactly when a proc the engine committed carries the identity of its cluster.
- `digest_sets_owner`: a digest line that makes the proc another user's.
-/
import AccessPoint.Queue.EditFrame
import AccessPoint.Factory.Engine

namespace AccessPoint

open ClassAdLib

section

variable {E : Type} [ClassAdLib E]

/-- the string value of an attribute of the flattened ad at `k` -/
def Queue.flatString (q : Queue E) (k : JobKey) (a : Attr) : Option String :=
  (q.coll.get k).bind fun ad => ad.evaluateAttrString a

/-- the cluster ad of `c`, if there is one, names `owner` and `user` -/
def ClusterIdentity (c : ℤ) (owner user : String) : Queue E → Prop :=
  Engine.ClusterAd c fun ad => ad .owner = some (lit (.str owner)) ∧ ad .user = some (lit (.str user))

/-- a commit puts the identity of its transaction on every cluster ad it writes -/
theorem committed_clusterIdentity (q : Queue E) (t : Txn E) (now : ℤ) {c : ℤ}
    (hs : (Txn.stagedAtCommit t (clusterKey c)).isSome = true) :
    ClusterIdentity c t.owner t.user (Txn.committed q t now) := by
  intro ad hl
  rw [Txn.committed_lookup] at hl
  split_ifs at hl
  obtain ⟨_, hsad⟩ := Option.isSome_iff_exists.1 hs
  rw [hsad] at hl
  simp only [Option.map_some, Option.some_or, Option.some.injEq] at hl
  rw [← hl, Txn.materialize_apply, Txn.materialize_apply]
  exact ⟨rfl, rfl⟩

variable [ConfigLib]

theorem clusterIdentity_stable (c : ℤ) (owner user : String) :
    Engine.Stable (ClusterIdentity c owner user : Queue E → Prop) := by
  refine Engine.clusterAd_stable c fun ad ad' hsame h => ?_
  rw [hsame .owner (by decide), hsame .user (by decide)]
  exact h

/-! ## The identity of a proc -/

/-- the ad a digest expression of `m` is evaluated on: the proc ad, over the cluster ad when it has one to inherit from
-/
def Made.context (m : Made E) : Ad E :=
  let proc := m.before.materializedProc m.override ⟨m.cluster, m.proc⟩ m.now
  if m.proc < 0 then proc
  else proc.chainTo (Queue.advancedCluster ((m.before.coll.lookup (clusterKey m.cluster)).getD Ad.empty) m.nextProcId
    m.nextRow m.paused)

/-- no assignment of the digest sets attribute `x` and the proc inherits, or the last one that does has the value `v` on
the proc; proc -1 is the cluster ad itself -/
def Made.keeps (m : Made E) (x : Attr) (v : String) : Bool :=
  m.proc = -1 ||
    match m.digest.lastFor E x with
    | none => 0 ≤ m.proc
    | some a => eval m.context (a.exprIn (m.digest.withVars E m.cluster m.proc m.rawRow) : E) = .str v

/-- one of the two attributes, on a proc whose cluster ad has it as a literal -/
theorem made_keeps_iff {m : Made E} (hm : m.Genuine) {x : Attr} (hx : x = .owner ∨ x = .user) {v : String}
    (hcl : ∀ ad, m.before.coll.lookup (clusterKey m.cluster) = some ad → ad x = some (lit (.str v))) :
    m.after.flatString ⟨m.cluster, m.proc⟩ x = some v ↔ m.keeps x v = true := by
  obtain ⟨_, hm⟩ := hm
  obtain ⟨cluster, hlcl, hlook⟩ := Queue.materializeProc_lookup hm
  have hcx := hcl cluster hlcl
  have hadv : Queue.advancedCluster cluster m.nextProcId m.nextRow m.paused x = some (lit (.str v)) := by
    rw [Queue.advancedCluster_apply _ _ _ _ _ (by rcases hx with rfl | rfl <;> decide), hcx]
  have hproc : m.before.materializedProc m.override ⟨m.cluster, m.proc⟩ m.now x = m.override x := by
    rw [Queue.materializedProc_apply]
    rcases hx with rfl | rfl <;> simp [Queue.materializedForced, Queue.materializedDefault]
  have hov : m.override x =
      (m.digest.lastFor E x).map (Assign.exprIn (m.digest.withVars E m.cluster m.proc m.rawRow)) :=
    Digest.materialize_apply m.digest m.cluster m.proc m.rawRow x
  by_cases h1 : m.proc = -1
  · -- the two ads of the batch have one key, and the cluster ad is the one that stays
    have hk : (⟨m.cluster, m.proc⟩ : JobKey) = clusterKey m.cluster := by rw [h1]; rfl
    have hget : m.after.coll.get ⟨m.cluster, m.proc⟩ =
        some (Queue.advancedCluster cluster m.nextProcId m.nextRow m.paused) := by
      rw [Store.get_neg _ (by simp [h1]), hlook, if_pos hk]
    have hkeeps : m.keeps x v = true := by simp [Made.keeps, h1]
    rw [Queue.flatString, hget, Option.bind_some, Ad.evaluateAttrString_lit hadv, hkeeps]
    simp
  · have hk : (⟨m.cluster, m.proc⟩ : JobKey) ≠ clusterKey m.cluster := fun h => h1 (congrArg JobKey.proc h)
    have hown : m.after.coll.lookup ⟨m.cluster, m.proc⟩ =
        some (m.before.materializedProc m.override ⟨m.cluster, m.proc⟩ m.now) := by
      rw [hlook, if_neg hk, if_pos rfl]
      rfl
    have hget : m.after.coll.get ⟨m.cluster, m.proc⟩ = some m.context := by
      unfold Made.context
      rcases lt_or_ge m.proc 0 with hp | hp
      · rw [Store.get_neg _ hp, hown, if_pos hp]
      · rw [Store.get_of_lookup hown, Store.parentAd_proc _ hp, hlook, if_pos rfl, hlcl, if_neg (not_lt.2 hp)]
        rfl
    have hctx : m.context x = if m.proc < 0 then m.override x else (m.override x).or (some (lit (.str v))) := by
      unfold Made.context
      split_ifs with hp
      · exact hproc
      · rw [Ad.chainTo_apply, hproc, hlcl]
        exact congrArg _ hadv
    simp only [Queue.flatString, hget, Option.bind_some, Ad.evaluateAttrString_iff, hctx, Made.keeps, h1, decide_false,
      Bool.false_or]
    cases hl : m.digest.lastFor E x with
    | none =>
      rw [hl, Option.map_none] at hov
      rcases lt_or_ge m.proc 0 with hp | hp
      · simp [hov, hp, not_le.2 hp]
      · simpa [hov, not_lt.2 hp, hp] using eval_lit m.context (.str v)
    | some =>
      rw [hl, Option.map_some] at hov
      by_cases hp : m.proc < 0 <;> simp [hov, hp]

/-! ## Runs

Commits of any transactions, the engine's visits and the schedd's other writes to procs, in any order. The run records
which identity last committed each cluster ad, and with each materialized proc the identity of its cluster at that
moment. -/

structure FactoryRun (E : Type) where
  engine : Engine E
  identity : ℤ → Option (String × String)
  log : List (Made E × Option (String × String))

namespace FactoryRun

inductive Event (E : Type) where
  | commit (t : Txn E) (now : ℤ) (updErr : Option String)
  | visit (w : Engine.World) (c : ℤ)
  /-- the schedd writes the ad of a job -/
  | write (k : JobKey) (hk : 0 ≤ k.proc) (ad : Ad E)
  | delete (k : JobKey)

def start (q : Queue E) : FactoryRun E := ⟨⟨q, ∅, [], [], false⟩, fun _ => none, []⟩

/-- the identity of each cluster after an accepted commit -/
def noteIdentity (identity : ℤ → Option (String × String)) (t : Txn E) (c : ℤ) : Option (String × String) :=
  if (Txn.stagedAtCommit t (clusterKey c)).isSome then some (t.owner, t.user) else identity c

def setQueue (s : FactoryRun E) (q : Queue E) : FactoryRun E := { s with engine := { s.engine with q := q } }

def step (s : FactoryRun E) : Event E → FactoryRun E
  | .commit t now updErr =>
    match Txn.commit s.engine.q t now updErr with
    | (none, q', _) => { s.setQueue q' with identity := noteIdentity s.identity t }
    | (some _, _, _) => s
  | .visit w c =>
    let e := Engine.materializeCluster w { s.engine with made := [] } c
    { s with engine := e, log := s.log ++ e.made.map fun m => (m, s.identity m.cluster) }
  | .write k _ ad => s.setQueue { s.engine.q with coll := s.engine.q.coll.put k ad }
  | .delete k => s.setQueue { s.engine.q with coll := s.engine.q.coll.delete k }

def run (s : FactoryRun E) (evs : List (Event E)) : FactoryRun E := evs.foldl step s

/-- every cluster ad has the identity recorded for it, and so it was before every proc in the log -/
structure Inv (s : FactoryRun E) : Prop where
  clusters : ∀ c owner user, s.identity c = some (owner, user) → ClusterIdentity c owner user s.engine.q
  made : ∀ m owner user, (m, some (owner, user)) ∈ s.log → m.Genuine ∧ ClusterIdentity m.cluster owner user m.before

theorem step_inv {s : FactoryRun E} (h : s.Inv) (ev : Event E) : (step s ev).Inv := by
  cases ev with
  | commit t now =>
    simp only [step]
    split
    · rename_i q' log hc
      refine ⟨fun c owner user hid => ?_, h.made⟩
      rw [setQueue, Txn.commit_ok hc]
      simp only [noteIdentity] at hid
      split_ifs at hid with hs
      · cases hid
        exact committed_clusterIdentity _ t now hs
      · intro ad hl
        rw [Txn.committed_lookup, Option.not_isSome_iff_eq_none.1 hs] at hl
        split_ifs at hl
        exact h.clusters c owner user hid ad hl
    · exact h
  | visit w c =>
    have hvisit : ∀ c' owner user, s.identity c' = some (owner, user) →
        ClusterIdentity c' owner user (step s (.visit w c)).engine.q ∧
          ∀ m ∈ (step s (.visit w c)).engine.made, m.Genuine ∧ ClusterIdentity c' owner user m.before :=
      fun c' owner user hid => by
        have hmade := Engine.materializeCluster_made (clusterIdentity_stable c' owner user) w
          { s.engine with made := [] } c (h.clusters c' owner user hid)
        exact ⟨hmade.1, fun m hm => (hmade.2 m hm).resolve_left (by simp)⟩
    refine ⟨fun c' owner user hid => (hvisit c' owner user hid).1, fun m owner user hm => ?_⟩
    rcases List.mem_append.1 hm with hm | hm
    · exact h.made m owner user hm
    · obtain ⟨m', hm', heq⟩ := List.mem_map.1 hm
      simp only [Prod.mk.injEq] at heq
      obtain ⟨rfl, hid⟩ := heq
      exact (hvisit m'.cluster owner user hid).2 m' hm'
  | write k =>
    refine ⟨fun c owner user hid ad' hl => h.clusters c owner user hid ad' ?_, h.made⟩
    have hne : clusterKey c ≠ k := fun he => by
      have := congrArg JobKey.proc he
      rw [clusterKey_proc] at this
      omega
    simpa [step, setQueue, Store.lookup_put, hne] using hl
  | delete =>
    refine ⟨fun c owner user hid ad' hl => h.clusters c owner user hid ad' ?_, h.made⟩
    simp only [step, setQueue, Store.lookup_delete] at hl
    split_ifs at hl
    exact hl

theorem run_inv (q : Queue E) (evs : List (Event E)) : (run (start q) evs).Inv :=
  Runs.foldl_inv (P := fun s : FactoryRun E => s.Inv) (fun _ ev h => step_inv h ev)
    ⟨fun _ _ _ h => by simp [start] at h, fun _ _ _ h => by simp [start] at h⟩ evs

/-- **When a materialized proc carries its cluster's identity.** In every run, a proc the engine commits has the Owner
and User of the transaction that last committed its cluster ad exactly when its digest leaves them alone or sets them to
those values. -/
theorem made_identity_iff (q : Queue E) (evs : List (Event E)) {m : Made E} {owner user : String}
    (hm : (m, some (owner, user)) ∈ (run (start q) evs).log) :
    (m.after.flatString ⟨m.cluster, m.proc⟩ .owner = some owner ∧
        m.after.flatString ⟨m.cluster, m.proc⟩ .user = some user) ↔
      (m.keeps .owner owner = true ∧ m.keeps .user user = true) := by
  obtain ⟨hgen, hid⟩ := (run_inv q evs).made m owner user hm
  rw [made_keeps_iff hgen (.inl rfl) fun ad hl => (hid ad hl).1,
    made_keeps_iff hgen (.inr rfl) fun ad hl => (hid ad hl).2]

end FactoryRun

end

/-! ## A factory of alice's -/

/-- alice's transaction with a factory cluster whose digest is spooled at `/spool/1/d` -/
def aliceFactory : Txn Value :=
  (Txn.session (Queue.openNew poolOptions) "alice@pool" [.newCluster none,
    .setAttribute (clusterKey 1) "JobMaterializeDigestFile" "\"/spool/1/d\"",
    .setAttribute (clusterKey 1) "JobMaterializeLimit" "2"]).2

/-- alice commits the factory and the engine visits it, `digest` being the text of the file -/
def aliceFactoryRun (digest : String) : FactoryRun Value :=
  FactoryRun.run (FactoryRun.start (Queue.openNew poolOptions)) [.commit aliceFactory 100 none,
    .visit ⟨fun path => if path = "/spool/1/d" then .ok digest else .notExist, 101, fun _ => none, true⟩ 1]

namespace FactoryRun

/-- a digest that names neither attribute -/
theorem made_identity_plain :
    (aliceFactoryRun "executable=/bin/sleep\nqueue 3\n").log.map (fun p => (p.1.proc, p.2)) =
        [(0, some ("alice", "alice@pool")), (1, some ("alice", "alice@pool"))] ∧
      ∀ m, (m, some ("alice", "alice@pool")) ∈ (aliceFactoryRun "executable=/bin/sleep\nqueue 3\n").log →
        m.after.flatString ⟨m.cluster, m.proc⟩ .owner = some "alice" ∧
          m.after.flatString ⟨m.cluster, m.proc⟩ .user = some "alice@pool" := by
  have hkeeps : ∀ p ∈ (aliceFactoryRun "executable=/bin/sleep\nqueue 3\n").log,
      p.1.keeps .owner "alice" = true ∧ p.1.keeps .user "alice@pool" = true := by
    decide +kernel
  exact ⟨by decide +kernel, fun m hm => (made_identity_iff _ _ hm).2 (hkeeps _ hm)⟩

/-- a digest line `+Owner="bob"` in alice's factory makes a proc of bob's -/
theorem digest_sets_owner :
    ∃ p ∈ (aliceFactoryRun "executable=/bin/sleep\n+Owner=\"bob\"\nqueue 3\n").log,
      p.2 = some ("alice", "alice@pool") ∧ p.1.after.flatString ⟨p.1.cluster, p.1.proc⟩ .owner = some "bob" := by
  decide +kernel

end FactoryRun

end AccessPoint
