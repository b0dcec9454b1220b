/-
Late materialization in the queue (internal/queue/factory.go and `MaybeCleanupFactoryCluster` of actions.go).

The bookkeeping of a job factory lives on its cluster ad. `factoryInfo` reads it together with the live proc counts,
`materializeProc` commits one proc and advances the bookkeeping in one batch, `pauseFactory` marks a factory paused or
done, `maybeCleanupFactoryCluster` reclaims the cluster ad of a finished one. `factoryInfo` counts the procs of a
cluster by the query `ClusterId == c`; the schedd stamps that attribute as an integer, so the model compares integers.

- `materializedProc_apply`: the proc ad a materialization stores, attribute by attribute. Owner and User are not forced:
  they are whatever the override says, else inherited.
- `materializeProc_lookup`: the store after it.
-/
import AccessPoint.Queue.Commit

namespace AccessPoint

open ClassAdLib

/-- `StatusRunning` -/
def statusRunning : ℤ := 2

/-- `StatusRemoved` -/
def statusRemoved : ℤ := 3

/-- `StatusCompleted` -/
def statusCompleted : ℤ := 4

/-- `StatusHeld` -/
def statusHeld : ℤ := 5

/-- `StatusTransferOut` -/
def statusTransferOut : ℤ := 6

/-- `StatusSuspended` -/
def statusSuspended : ℤ := 7

/-- `PauseNoMoreItems` -/
def pauseNoMoreItems : ℤ := 3

structure FactoryInfo where
  cluster : ℤ
  digestFile : String
  itemsFile : String
  limit : ℤ
  maxIdle : ℤ
  nextProcId : ℤ
  nextRow : ℤ
  itemCount : ℤ
  paused : ℤ
  totalProcs : ℤ
  idleProcs : ℤ
deriving DecidableEq, Repr

structure ClusterCounts where
  total : ℕ
  idle : ℕ
  running : ℕ
  held : ℕ
deriving DecidableEq, Repr

variable {E : Type} [ClassAdLib E]

def intAttr (ad : Ad E) (a : Attr) (dflt : ℤ) : ℤ := (ad.evaluateAttrInt a).getD dflt

namespace Queue

def isFactoryCluster (q : Queue E) (c : ℤ) : Bool := c ∈ q.factories

/-- one proc counted under its status -/
def tally (cc : ClusterCounts) (ad : Ad E) : ClusterCounts :=
  let cc := { cc with total := cc.total + 1 }
  let st := ad.int0 .jobStatus
  if st = statusIdle then { cc with idle := cc.idle + 1 }
  else if st = statusRunning ∨ st = statusTransferOut ∨ st = statusSuspended then { cc with running := cc.running + 1 }
  else if st = statusHeld then { cc with held := cc.held + 1 }
  else cc

def clusterStatusCounts (q : Queue E) (c : ℤ) : ClusterCounts :=
  (q.coll.scan.filter fun ad => ad.evaluateAttrInt .clusterId = some c).foldl tally ⟨0, 0, 0, 0⟩

def factoryInfo (q : Queue E) (c : ℤ) : Option FactoryInfo :=
  match q.coll.get (clusterKey c) with
  | none => none
  | some ad =>
    match ad.evaluateAttrString .jobMaterializeDigestFile with
    | none => none
    | some digest =>
      if digest = "" then none
      else
        let counts := q.clusterStatusCounts c
        some {
          cluster := c
          digestFile := digest
          itemsFile := (ad.evaluateAttrString .jobMaterializeItemsFile).getD ""
          limit := intAttr ad .jobMaterializeLimit (-1)
          maxIdle := intAttr ad .jobMaterializeMaxIdle (-1)
          nextProcId := intAttr ad .jobMaterializeNextProcId 0
          nextRow := intAttr ad .jobMaterializeNextRow 0
          itemCount := intAttr ad .jobMaterializeItemCount 0
          paused := intAttr ad .jobMaterializePaused 0
          totalProcs := counts.total
          idleProcs := counts.idle }

/-- `recoverFactories`: the factory set rebuilt from the cluster ads of every allocated cluster -/
def recoverFactories (q : Queue E) : List ℤ :=
  ((List.range q.nextID.toNat).map Int.ofNat).filter fun c =>
    match q.coll.get (clusterKey c) with
    | none => false
    | some ad => 1 ≤ c && Txn.isFactoryAd ad

/-- the proc ad up to the point where `QDate` is read back -/
def materializedKeys (override : Ad E) (k : JobKey) (now : ℤ) : Ad E :=
  let ad := override.setInt .procId k.proc
  let ad := ad.setInt .clusterId k.cluster
  let ad := Txn.setDefault ad .jobStatus (.int statusIdle)
  Txn.setDefault ad .qDate (.int now)

/-- the proc ad a materialization stores: the digest's override and the attributes forced at submit -/
def materializedProc (q : Queue E) (override : Ad E) (k : JobKey) (now : ℤ) : Ad E :=
  let ad := materializedKeys override k now
  let qdate := (ad.evaluateAttrInt .qDate).getD now
  let ad := ad.setStr .globalJobId (q.globalJobID k qdate)
  ad.setStr .myType "Job"

/-- the cluster ad with its bookkeeping advanced -/
def advancedCluster (cluster : Ad E) (nextProcId nextRow paused : ℤ) : Ad E :=
  let ad := cluster.setInt .jobMaterializeNextProcId nextProcId
  let ad := ad.setInt .jobMaterializeNextRow nextRow
  if paused ≠ 0 then ad.setInt .jobMaterializePaused paused else ad

/-- `MaterializeProc`: the error, or the queue after it and the ad handed to the user log -/
def materializeProc (q : Queue E) (c proc : ℤ) (override : Option (Ad E)) (nextProcId nextRow paused now : ℤ)
    (updErr : Option String) : Except String (Queue E × Option (Ad E)) :=
  match q.coll.get (clusterKey c) with
  | none => .error ("factory cluster " ++ toString c ++ " has no cluster ad")
  | some cluster =>
    let k : JobKey := ⟨c, proc⟩
    let procAd := q.materializedProc (override.getD Ad.empty) k now
    match updErr with
    | some e => .error ("materializing proc " ++ k.text ++ ": " ++ e)
    | none =>
      -- one batch of two ads; the cluster ad is written last, so it wins should the two keys coincide
      let coll := (q.coll.put k procAd).put (clusterKey c) (advancedCluster cluster nextProcId nextRow paused)
      .ok ({ q with coll := coll }, Store.get coll k)

/-- `PauseFactory`; a failed write is ignored -/
def pauseFactory (q : Queue E) (c code : ℤ) (written : Bool) : Queue E :=
  match q.coll.get (clusterKey c) with
  | none => q
  | some cluster =>
    if written then { q with coll := q.coll.put (clusterKey c) (cluster.setInt .jobMaterializePaused code) } else q

/-- the factory can produce no more procs, as its bookkeeping tells -/
def factoryDone (fi : FactoryInfo) : Bool :=
  fi.paused ≠ 0 ∨ (0 < fi.limit ∧ fi.limit ≤ fi.nextProcId) ∨
    (0 < fi.itemCount ∧ fi.itemCount ≤ fi.nextRow ∧ fi.nextRow ≤ fi.nextProcId)

def maybeCleanupFactoryCluster (q : Queue E) (c : ℤ) : Bool × Queue E :=
  if ¬ q.isFactoryCluster c then (false, q)
  else
    match q.factoryInfo c with
    | none => (false, q)
    | some fi =>
      if 0 < fi.totalProcs ∨ ¬ factoryDone fi then (false, q)
      else (true, { q with coll := q.coll.delete (clusterKey c), factories := Txn.unnoteFactory q.factories c })

/-- what `factoryInfo` reports: the attributes of the cluster ad and the two counts -/
theorem factoryInfo_some {q : Queue E} {c : ℤ} {fi : FactoryInfo} (h : q.factoryInfo c = some fi) :
    ∃ ad, q.coll.lookup (clusterKey c) = some ad ∧
      ad.evaluateAttrString .jobMaterializeDigestFile = some fi.digestFile ∧
      fi.itemsFile = (ad.evaluateAttrString .jobMaterializeItemsFile).getD "" ∧
      fi.limit = intAttr ad .jobMaterializeLimit (-1) ∧ fi.maxIdle = intAttr ad .jobMaterializeMaxIdle (-1) ∧
      fi.nextProcId = intAttr ad .jobMaterializeNextProcId 0 ∧ fi.nextRow = intAttr ad .jobMaterializeNextRow 0 ∧
      fi.itemCount = intAttr ad .jobMaterializeItemCount 0 ∧ fi.paused = intAttr ad .jobMaterializePaused 0 ∧
      fi.idleProcs = (q.clusterStatusCounts c).idle := by
  unfold factoryInfo at h
  cases hg : q.coll.get (clusterKey c) with
  | none => simp [hg] at h
  | some ad =>
    have hl : q.coll.lookup (clusterKey c) = some ad := by rwa [Store.get_neg _ (by simp)] at hg
    cases hd : ad.evaluateAttrString .jobMaterializeDigestFile with
    | none => simp [hg, hd] at h
    | some =>
      simp only [hg, hd] at h
      split_ifs at h
      cases h
      exact ⟨ad, hl, hd, rfl, rfl, rfl, rfl, rfl, rfl, rfl, rfl⟩

/-! ## What a materialization stores -/

/-- what `materializedProc` overwrites -/
def materializedForced (q : Queue E) (override : Ad E) (k : JobKey) (now : ℤ) : Ad E := fun a =>
  match a with
  | .procId => some (lit (.int k.proc))
  | .clusterId => some (lit (.int k.cluster))
  | .globalJobId =>
    some (lit (.str (q.globalJobID k (((materializedKeys override k now).evaluateAttrInt .qDate).getD now))))
  | .myType => some (lit (.str "Job"))
  | _ => none

/-- what `materializedProc` gives an override that lacks it -/
def materializedDefault (now : ℤ) : Ad E := fun a =>
  match a with
  | .jobStatus => some (lit (.int statusIdle))
  | .qDate => some (lit (.int now))
  | _ => none

/-- **A materialized proc, attribute by attribute.** -/
theorem materializedProc_apply (q : Queue E) (override : Ad E) (k : JobKey) (now : ℤ) (a : Attr) :
    q.materializedProc override k now a =
      (q.materializedForced override k now a).or ((override a).or (materializedDefault now a)) := by
  simp only [materializedProc, materializedKeys, Ad.setStr_apply, Ad.setInt_apply, Txn.setDefault_apply]
  cases a <;> simp [materializedForced, materializedDefault, materializedKeys]

theorem advancedCluster_apply (cluster : Ad E) (nextProcId nextRow paused : ℤ) (a : Attr)
    (h : a ≠ .jobMaterializeNextProcId ∧ a ≠ .jobMaterializeNextRow ∧ a ≠ .jobMaterializePaused) :
    advancedCluster cluster nextProcId nextRow paused a = cluster a := by
  obtain ⟨h1, h2, h3⟩ := h
  by_cases hp : paused = 0
  · simp [advancedCluster, hp, Ad.setInt_apply, h1, h2]
  · simp [advancedCluster, hp, Ad.setInt_apply, h1, h2, h3]

variable {override : Option (Ad E)} {updErr : Option String}

theorem materializeProc_ok {q q' : Queue E} {c proc : ℤ} {np nr pa now : ℤ} {log : Option (Ad E)}
    (h : q.materializeProc c proc override np nr pa now updErr = .ok (q', log)) :
    ∃ cluster, updErr = none ∧ q.coll.get (clusterKey c) = some cluster ∧
      q' = { q with
        coll := (q.coll.put ⟨c, proc⟩ (q.materializedProc (override.getD Ad.empty) ⟨c, proc⟩ now)).put (clusterKey c)
          (advancedCluster cluster np nr pa) } := by
  unfold materializeProc at h
  cases hg : q.coll.get (clusterKey c) with
  | none => simp [hg] at h
  | some cluster =>
    simp only [hg] at h
    cases updErr with
    | some => simp at h
    | none =>
      simp only [Except.ok.injEq, Prod.mk.injEq] at h
      exact ⟨cluster, rfl, rfl, h.1.symm⟩

/-- **The store after a materialization.** -/
theorem materializeProc_lookup {q q' : Queue E} {c proc : ℤ} {np nr pa now : ℤ} {log : Option (Ad E)}
    (h : q.materializeProc c proc override np nr pa now updErr = .ok (q', log)) :
    ∃ cluster, q.coll.lookup (clusterKey c) = some cluster ∧ ∀ k, q'.coll.lookup k =
      if k = clusterKey c then some (advancedCluster cluster np nr pa)
      else if k = ⟨c, proc⟩ then some (q.materializedProc (override.getD Ad.empty) ⟨c, proc⟩ now)
      else q.coll.lookup k := by
  obtain ⟨cluster, -, hg, rfl⟩ := materializeProc_ok h
  refine ⟨cluster, ?_, fun k => ?_⟩
  · rwa [Store.get_neg _ (by simp)] at hg
  · simp only [Store.lookup_put]

end Queue

/-! ## Pauses -/

theorem intAttr_none {ad : Ad E} {a : Attr} (h : ad a = none) (dflt : ℤ) : intAttr ad a dflt = dflt := by
  simp [intAttr, Ad.evaluateAttrInt, Ad.evaluateAttr, h]

/-- the factory of this cluster ad is not paused, however far its bookkeeping advances -/
def Ad.Unpaused (ad : Ad E) : Prop :=
  ∀ ad' : Ad E, (∀ a ∉ [Attr.jobMaterializeNextProcId, .jobMaterializeNextRow], ad' a = ad a) →
    intAttr ad' .jobMaterializePaused 0 = 0

theorem Ad.Unpaused.of_none {ad : Ad E} (h : ad .jobMaterializePaused = none) : ad.Unpaused :=
  fun _ hsame => intAttr_none ((hsame _ (by decide)).trans h) 0

theorem Ad.Unpaused.advanced {cluster : Ad E} (h : cluster.Unpaused) (np nr : ℤ) :
    (Queue.advancedCluster cluster np nr 0).Unpaused := by
  intro ad' h'
  refine h ad' fun a ha => ?_
  rw [h' a ha]
  have hne : a ≠ .jobMaterializeNextProcId ∧ a ≠ .jobMaterializeNextRow := by simpa using ha
  simp [Queue.advancedCluster, Ad.setInt_apply, hne.1, hne.2]

end AccessPoint
