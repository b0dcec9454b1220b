/-
Commit (internal/queue/txn.go, `Txn.Commit` and `Txn.materialize`).

Commit stages the cluster ad of every cluster it touches, materializes every staged ad that is not destroyed, writes
them as one batch, deletes the destroyed keys and maintains the set of factory clusters.

- `materialize_apply`: a materialized ad is the forced attributes over the staged ones over the defaults.
- `committed_lookup`: the store after a successful commit, key by key. Everything later modules know about a commit
  follows from it.
- `commit_error_keeps`: a commit that reports an error leaves the queue as it was.
-/
import AccessPoint.Queue.Txn

namespace AccessPoint

open ClassAdLib

/-- `StatusIdle` -/
def statusIdle : ℤ := 1

namespace Txn

variable {E : Type}

/-! ## What is staged -/

/-- some staged ad belongs to cluster `c` -/
def touches (t : Txn E) (c : ℤ) : Bool := t.pending.keys.any (·.cluster = c)

/-- the overlay once the cluster ad of every touched cluster is staged -/
def stageClusters (t : Txn E) : Txn E :=
  { t with pending := KeyMap.ensureAll Ad.empty t.pending (t.pending.keys.map fun k => clusterKey k.cluster) }

/-- the ad staged at `k` when the batch is built -/
def stagedAtCommit (t : Txn E) (k : JobKey) : Option (Ad E) :=
  (t.pending.lookup k).or (if k.proc = -1 ∧ t.touches k.cluster then some Ad.empty else none)

theorem touches_iff (t : Txn E) (c : ℤ) : t.touches c = true ↔ ∃ k ∈ t.pending, k.cluster = c := by
  simp [touches, AList.mem_keys]

variable {t : Txn E} {k : JobKey}

theorem touches_of_mem (h : k ∈ t.pending) : t.touches k.cluster = true :=
  (touches_iff t _).2 ⟨k, h, rfl⟩

theorem mem_clusterKeys (t : Txn E) (k : JobKey) :
    k ∈ (t.pending.keys.map fun k => clusterKey k.cluster) ↔ k.proc = -1 ∧ t.touches k.cluster = true := by
  rw [touches_iff]
  simp only [List.mem_map, AList.mem_keys.symm]
  constructor
  · rintro ⟨k', hk', rfl⟩
    exact ⟨rfl, k', hk', rfl⟩
  · rintro ⟨hp, k', hk', hc⟩
    exact ⟨k', hk', by rw [hc]; exact (eq_clusterKey hp).symm⟩

theorem stageClusters_lookup (t : Txn E) (k : JobKey) : (stageClusters t).pending.lookup k = stagedAtCommit t k := by
  unfold stageClusters stagedAtCommit
  rw [KeyMap.lookup_ensureAll]
  simp only [mem_clusterKeys]

/-- nothing is staged at `k` at commit unless its cluster is touched -/
theorem stagedAtCommit_untouched (h : t.touches k.cluster = false) : stagedAtCommit t k = none := by
  have hk : t.pending.lookup k = none := by
    apply KeyMap.lookup_none_of_notMem
    intro hm
    rw [touches_of_mem hm] at h
    cases h
  simp [stagedAtCommit, hk, h]

/-- the cluster ad of a touched cluster is always rewritten -/
theorem stagedAtCommit_clusterKey {c : ℤ} (h : t.touches c = true) :
    stagedAtCommit t (clusterKey c) = some (t.staged (clusterKey c)) := by
  unfold stagedAtCommit staged
  rw [clusterKey_cluster, if_pos ⟨rfl, h⟩]
  cases t.pending.lookup (clusterKey c) <;> rfl

/-- a proc ad is rewritten only when it was staged itself -/
theorem stagedAtCommit_proc (h : k.proc ≠ -1) : stagedAtCommit t k = t.pending.lookup k := by
  simp [stagedAtCommit, h]

variable [ClassAdLib E]

/-! ## Materialization -/

/-- `if _, ok := ad.Lookup(a); !ok { ad.Set(a, v) }` -/
def setDefault (ad : Ad E) (a : Attr) (v : Value) : Ad E := if (ad.lookup a).isNone then ad.set a v else ad

/-- the proc branch up to the point where `QDate` is read back -/
def materializeProcKeys (t : Txn E) (ad : Ad E) (k : JobKey) (now : ℤ) : Ad E :=
  let ad := ad.setInt .procId k.proc
  let ad := ad.setInt .clusterId k.cluster
  let ad := ad.setStr .owner t.owner
  let ad := ad.setStr .user t.user
  let ad := setDefault ad .jobStatus (.int statusIdle)
  setDefault ad .qDate (.int now)

/-- the attributes the schedd forces onto every job at commit -/
def materialize (q : Queue E) (t : Txn E) (ad : Ad E) (k : JobKey) (now : ℤ) : Ad E :=
  if k.proc < 0 then
    let ad := ad.setInt .clusterId k.cluster
    let ad := ad.setStr .owner t.owner
    let ad := ad.setStr .user t.user
    let ad := setDefault ad .jobUniverse (.int 5)
    ad.setStr .myType "Job"
  else
    let ad := materializeProcKeys t ad k now
    let qdate := (ad.evaluateAttrInt .qDate).getD now
    let ad := ad.setStr .globalJobId (q.globalJobID k qdate)
    ad.setStr .myType "Job"

/-- the attributes `materialize` overwrites -/
def forced (q : Queue E) (t : Txn E) (ad : Ad E) (k : JobKey) (now : ℤ) : Ad E := fun a =>
  match a with
  | .clusterId => some (lit (.int k.cluster))
  | .owner => some (lit (.str t.owner))
  | .user => some (lit (.str t.user))
  | .myType => some (lit (.str "Job"))
  | .procId => if k.proc < 0 then none else some (lit (.int k.proc))
  | .globalJobId =>
    if k.proc < 0 then none
    else some (lit (.str (q.globalJobID k (((materializeProcKeys t ad k now).evaluateAttrInt .qDate).getD now))))
  | _ => none

/-- the attributes `materialize` gives an ad that lacks them -/
def defaulted (k : JobKey) (now : ℤ) : Ad E := fun a =>
  match a with
  | .jobUniverse => if k.proc < 0 then some (lit (.int 5)) else none
  | .jobStatus => if k.proc < 0 then none else some (lit (.int statusIdle))
  | .qDate => if k.proc < 0 then none else some (lit (.int now))
  | _ => none

theorem setDefault_apply (ad : Ad E) (a b : Attr) (v : Value) :
    setDefault ad a v b = (ad b).or (if b = a then some (lit v) else none) := by
  unfold setDefault
  cases h : ad a with
  | none =>
    by_cases hb : b = a
    · subst hb; simp [h, Ad.set_apply]
    · simp [h, hb, Ad.set_apply]
  | some =>
    by_cases hb : b = a
    · subst hb; simp [h]
    · simp [h, hb]

variable (q : Queue E)

/-- **A materialized ad, attribute by attribute.** What is forced, over what was staged, over the defaults. -/
theorem materialize_apply (t : Txn E) (ad : Ad E) (k : JobKey) (now : ℤ) (a : Attr) :
    materialize q t ad k now a = (forced q t ad k now a).or ((ad a).or (defaulted k now a)) := by
  by_cases hk : k.proc < 0
  · simp only [materialize, if_pos hk, Ad.setStr_apply, Ad.setInt_apply, setDefault_apply]
    cases a <;> simp [forced, defaulted, hk]
  · simp only [materialize, if_neg hk, materializeProcKeys, Ad.setStr_apply, Ad.setInt_apply, setDefault_apply]
    cases a <;> simp [forced, defaulted, hk, materializeProcKeys]

/-! ## Commit -/

/-- the batch: every staged ad that is not destroyed, materialized -/
def commitBatch (q : Queue E) (t : Txn E) (now : ℤ) : KeyMap JobKey (Ad E) :=
  KeyMap.mapKeys (fun k ad => if k ∈ t.destroyed then none else some (materialize q t ad k now))
    (stageClusters t).pending

def unnoteFactory (fs : List ℤ) (c : ℤ) : List ℤ := fs.filter (· ≠ c)

def noteFactory (fs : List ℤ) (c : ℤ) : List ℤ := fs.insert c

/-- a committed cluster ad that names a digest file is a factory -/
def isFactoryAd (ad : Ad E) : Bool :=
  match ad.evaluateAttrString .jobMaterializeDigestFile with
  | some s => s ≠ ""
  | none => false

/-- the factory set after the destroyed keys are dropped and the committed ones noted -/
def commitFactories (fs : List ℤ) (destroyed : List JobKey) (batch : KeyMap JobKey (Ad E)) : List ℤ :=
  let fs := (destroyed.filter (·.proc < 0)).foldl (fun fs k => unnoteFactory fs k.cluster) fs
  (batch.entries.filter fun e => e.1.proc < 0 ∧ isFactoryAd e.2).foldl (fun fs e => noteFactory fs e.1.cluster) fs

/-- why a commit is refused; `updErr` is the error of the batch write, if it fails -/
def commitError (q : Queue E) (t : Txn E) (now : ℤ) (updErr : Option String) : Option QErr :=
  if t.errs ≠ [] then
    some (.plain ("transaction has " ++ toString t.errs.length ++ " deferred error(s): " ++ t.errs.headD ""))
  else if t.anonymous ∧ ¬ (t.pending.keys = [] ∧ t.destroyed = []) then some errAnonymous
  else if (commitBatch q t now).keys = [] then none
  else updErr.map fun e => .plain ("committing job batch: " ++ e)

/-- the queue after the batch is written, the destroyed keys are deleted and the factory set is maintained -/
def committed (q : Queue E) (t : Txn E) (now : ℤ) : Queue E :=
  { q with
    coll := KeyMap.eraseAll (q.coll.update (commitBatch q t now)) t.destroyed
    factories := commitFactories q.factories t.destroyed (commitBatch q t now) }

/-- `Commit`: the error, the queue after it, and the ads handed to the user log as SUBMIT events -/
def commit (q : Queue E) (t : Txn E) (now : ℤ) (updErr : Option String) : Option QErr × Queue E × List (Ad E) :=
  match commitError q t now updErr with
  | some e => (some e, q, [])
  | none =>
    (none, committed q t now,
      (t.newProcs.filter fun k => k ∉ t.destroyed).filterMap (Store.get (committed q t now).coll))

/-! ## The store after a commit -/

theorem commitBatch_lookup (t : Txn E) (now : ℤ) (k : JobKey) :
    (commitBatch q t now).lookup k =
      if k ∈ t.destroyed then none else (stagedAtCommit t k).map fun ad => materialize q t ad k now := by
  unfold commitBatch
  rw [KeyMap.lookup_mapKeys, stageClusters_lookup]
  split_ifs with h
  · cases stagedAtCommit t k <;> rfl
  · cases stagedAtCommit t k <;> rfl

/-- **The store after a successful commit.** A destroyed key has no ad, a staged key the materialized one, every other
key the ad it had. -/
theorem committed_lookup (t : Txn E) (now : ℤ) (k : JobKey) :
    (committed q t now).coll.lookup k =
      if k ∈ t.destroyed then none
      else ((stagedAtCommit t k).map fun ad => materialize q t ad k now).or (q.coll.lookup k) := by
  simp only [committed, KeyMap.lookup_eraseAll, Store.update, KeyMap.lookup_union, commitBatch_lookup]
  split_ifs <;> rfl

variable {updErr : Option String}

theorem commit_ok {q q' : Queue E} {now : ℤ} {log : List (Ad E)}
    (h : commit q t now updErr = (none, q', log)) : q' = committed q t now := by
  unfold commit at h
  cases he : commitError q t now updErr with
  | some => simp [he] at h
  | none =>
    simp only [he, Prod.mk.injEq, true_and] at h
    exact h.1.symm

theorem commit_accepted {q : Queue E} {now : ℤ}
    (h : (commit q t now updErr).1 = none) : (commit q t now updErr).2.1 = committed q t now := by
  rcases hc : commit q t now updErr with ⟨_ | _, _, _⟩
  · exact commit_ok hc
  · rw [hc] at h
    cases h

/-- **A commit that reports an error leaves the queue as it was.** -/
theorem commit_error_keeps {q q' : Queue E} {now : ℤ} {e : QErr}
    {log : List (Ad E)} (h : commit q t now updErr = (some e, q', log)) : q' = q ∧ log = [] := by
  unfold commit at h
  cases he : commitError q t now updErr with
  | some => simp only [he, Prod.mk.injEq] at h; exact ⟨h.2.1.symm, h.2.2.symm⟩
  | none => simp [he] at h

/-- the own ad of a key that the commit does not delete -/
theorem committed_lookup_kept (now : ℤ) (hd : k ∉ t.destroyed) :
    (committed q t now).coll.lookup k =
      ((stagedAtCommit t k).map fun ad => materialize q t ad k now).or (q.coll.lookup k) := by
  rw [committed_lookup, if_neg hd]

/-- a key of an untouched cluster keeps its ad unless it is destroyed -/
theorem committed_lookup_untouched (now : ℤ) (ht : t.touches k.cluster = false) (hd : k ∉ t.destroyed) :
    (committed q t now).coll.lookup k = q.coll.lookup k := by
  rw [committed_lookup_kept q now hd, stagedAtCommit_untouched ht]
  rfl

end Txn

end AccessPoint
