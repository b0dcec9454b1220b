/-
The queue and everything that writes to it, as one machine.

Any number of QMGMT connections are open at once and their requests interleave; a connection's transaction reaches the
store only by its commit. The schedd's own writers (`Queue.Modify`, hold, release, removal, completion, late
materialization, factory pause and cleanup) read a flattened ad at one moment and write it back, or delete the key, at a
later one: `copies` holds every ad some goroutine has read and may still write. What such a writer computes is a
`Rewrite`: it never touches the identity attributes.

- `reachable_wellKeyed`: in every reachable queue a proc ad carries the ids of its own key.
-/
import AccessPoint.Literal
import AccessPoint.Queue.TxnRun
import AccessPoint.Queue.Factory

namespace AccessPoint

open ClassAdLib

variable {E : Type}

/-- the attributes no internal writer changes -/
def identityAttrs : List Attr := [.clusterId, .procId, .owner, .user]

/-- what an internal writer does to the ad it read -/
structure Rewrite (E : Type) where
  apply : Ad E → Ad E
  keeps : ∀ ad, ∀ a ∈ identityAttrs, apply ad a = ad a

/-- the queue, the open transactions by connection, and the copies of ads that internal writers hold -/
structure Sys (E : Type) where
  q : Queue E
  txns : KeyMap ℕ (Txn E)
  copies : List (JobKey × Ad E)

namespace Sys

variable [ClassAdLib E]

inductive Event (E : Type) where
  /-- a connection begins a transaction -/
  | begin (conn : ℕ) (user : String)
  | request (conn : ℕ) (op : Txn.Op)
  /-- the transaction of the connection is committed and gone -/
  | commit (conn : ℕ) (now : ℤ) (updErr : Option String)
  | abort (conn : ℕ)
  | setAuthz (opts : Options)
  /-- an internal writer reads the flattened ad of `k` -/
  | read (k : JobKey)
  /-- an internal writer writes back what it made of the copy numbered `i` -/
  | write (i : ℕ) (f : Rewrite E)
  /-- a proc is materialized beside the copy numbered `i` of its cluster ad -/
  | materialize (i : ℕ) (proc : ℤ) (override : Ad E) (nextProcId nextRow paused now : ℤ)
  /-- a terminal record is appended to history -/
  | archive (ad : Ad E)
  | delete (k : JobKey)
  /-- a reclaimed factory leaves the factory set -/
  | unnoteFactory (c : ℤ)

def init (opts : Options) : Sys E := ⟨Queue.openNew opts, ∅, []⟩

def step (s : Sys E) : Event E → Sys E
  | .begin conn user => { s with txns := s.txns.insert conn (Txn.begin s.q user) }
  | .request conn op =>
    match s.txns.lookup conn with
    | none => s
    | some t =>
      let r := Txn.step (s.q, t) op
      { s with q := r.1, txns := s.txns.insert conn r.2 }
  | .commit conn now updErr =>
    match s.txns.lookup conn with
    | none => s
    | some t => { s with q := (Txn.commit s.q t now updErr).2.1, txns := s.txns.erase conn }
  | .abort conn => { s with txns := s.txns.erase conn }
  | .setAuthz opts => { s with q := s.q.setAuthz opts }
  | .read k =>
    match s.q.coll.get k with
    | none => s
    | some ad => { s with copies := s.copies ++ [(k, ad)] }
  | .write i f =>
    match s.copies[i]? with
    | none => s
    | some (k, ad) => { s with q := { s.q with coll := s.q.coll.put k (f.apply ad) } }
  | .materialize i proc override nextProcId nextRow paused now =>
    match s.copies[i]? with
    | none => s
    | some (k, cluster) =>
      let k' : JobKey := ⟨k.cluster, proc⟩
      { s with q := { s.q with
          coll := (s.q.coll.put k' (s.q.materializedProc override k' now)).put (clusterKey k.cluster)
            (Queue.advancedCluster cluster nextProcId nextRow paused) } }
  | .archive ad => { s with q := { s.q with hist := s.q.hist ++ [ad] } }
  | .delete k => { s with q := { s.q with coll := s.q.coll.delete k } }
  | .unnoteFactory c => { s with q := { s.q with factories := Txn.unnoteFactory s.q.factories c } }

def run (s : Sys E) (evs : List (Event E)) : Sys E := evs.foldl step s

/-- `q` is the queue after some run from an empty spool directory -/
def Reachable (q : Queue E) : Prop := ∃ opts evs, (run (init opts) evs).q = q

/-! ## Keys -/

/-- the ad at a proc key carries the ids of the key, as integers -/
def KeyedAt (k : JobKey) (ad : Ad E) : Prop :=
  0 ≤ k.proc → ad .clusterId = some (lit (.int k.cluster)) ∧ ad .procId = some (lit (.int k.proc))

/-- every stored ad and every copy carries the ids of its key -/
structure WellKeyed (s : Sys E) : Prop where
  stored : ∀ k ad, s.q.coll.lookup k = some ad → KeyedAt k ad
  copied : ∀ k ad, (k, ad) ∈ s.copies → KeyedAt k ad

variable {k : JobKey} {ad : Ad E}

theorem KeyedAt.chainTo (h : KeyedAt k ad) (parent : Ad E) : KeyedAt k (ad.chainTo parent) := by
  intro hk
  simp [h hk]

theorem KeyedAt.rewrite (h : KeyedAt k ad) (f : Rewrite E) : KeyedAt k (f.apply ad) := by
  intro hk
  rw [f.keeps ad .clusterId (by simp [identityAttrs]), f.keeps ad .procId (by simp [identityAttrs])]
  exact h hk

theorem KeyedAt.materialize (q : Queue E) (t : Txn E) (ad : Ad E) (k : JobKey) (now : ℤ) :
    KeyedAt k (Txn.materialize q t ad k now) := by
  intro hk
  have hn : ¬ k.proc < 0 := by omega
  rw [Txn.materialize_apply, Txn.materialize_apply]
  simp [Txn.forced, hn]

theorem KeyedAt.materializedProc (q : Queue E) (override : Ad E) (k : JobKey) (now : ℤ) :
    KeyedAt k (q.materializedProc override k now) := by
  intro _
  rw [Queue.materializedProc_apply, Queue.materializedProc_apply]
  simp [Queue.materializedForced]

theorem keyedAt_clusterKey (c : ℤ) (ad : Ad E) : KeyedAt (clusterKey c) ad := by
  intro h
  rw [clusterKey_proc] at h
  omega

/-- the store after one more write -/
theorem keyed_put {coll : Store E} (h : ∀ k ad, coll.lookup k = some ad → KeyedAt k ad)
    (had : KeyedAt k ad) : ∀ k' ad', (coll.put k ad).lookup k' = some ad' → KeyedAt k' ad' := by
  intro k' ad' hl
  rw [Store.lookup_put] at hl
  split_ifs at hl with hk
  · cases hl; exact hk ▸ had
  · exact h k' ad' hl

theorem keyed_commit {q : Queue E} (h : ∀ k ad, q.coll.lookup k = some ad → KeyedAt k ad) (t : Txn E) (now : ℤ)
    (updErr : Option String) : ∀ k ad, (Txn.commit q t now updErr).2.1.coll.lookup k = some ad → KeyedAt k ad := by
  intro k ad hl
  rcases hc : Txn.commit q t now updErr with ⟨_ | _, _, _⟩
  · rw [hc] at hl
    rw [Txn.commit_ok hc, Txn.committed_lookup] at hl
    split_ifs at hl with hd
    cases hs : Txn.stagedAtCommit t k with
    | none => rw [hs] at hl; exact h k ad (by simpa using hl)
    | some ad' =>
      rw [hs] at hl
      simp only [Option.map_some, Option.some_or, Option.some.injEq] at hl
      exact hl ▸ KeyedAt.materialize q t ad' k now
  · rw [hc] at hl
    rw [(Txn.commit_error_keeps hc).1] at hl
    exact h k ad hl

theorem wellKeyed_init (opts : Options) : WellKeyed (init opts : Sys E) where
  stored := fun k ad h => by simp [init, Queue.openNew] at h
  copied := fun k ad h => by simp [init] at h

theorem step_wellKeyed {s : Sys E} (h : WellKeyed s) (ev : Event E) : WellKeyed (step s ev) := by
  cases ev with
  | begin | abort | setAuthz | archive | unnoteFactory => exact ⟨h.stored, h.copied⟩
  | request conn op =>
    simp only [step]
    split
    · exact h
    · rename_i t _
      refine ⟨fun k ad hl => h.stored k ad ?_, h.copied⟩
      rwa [(Txn.step_base (s.q, t) op).coll] at hl
  | commit conn now updErr =>
    simp only [step]
    split
    · exact h
    · rename_i t _
      exact ⟨keyed_commit h.stored t now updErr, h.copied⟩
  | read =>
    simp only [step]
    split
    · exact h
    · rename_i ad hg
      refine ⟨h.stored, fun k' ad' hm => ?_⟩
      rcases List.mem_append.1 hm with hm | hm
      · exact h.copied k' ad' hm
      · simp only [List.mem_singleton, Prod.mk.injEq] at hm
        obtain ⟨rfl, rfl⟩ := hm
        obtain ⟨own, hown, rfl⟩ := Store.get_eq_some.1 hg
        exact (h.stored k' own hown).chainTo _
  | write i f =>
    simp only [step]
    split
    · exact h
    · rename_i k ad hi
      exact ⟨keyed_put h.stored ((h.copied k ad (List.mem_of_getElem? hi)).rewrite f), h.copied⟩
  | materialize i proc override np nr pa now =>
    simp only [step]
    split
    · exact h
    · rename_i k cluster hi
      exact ⟨keyed_put (keyed_put h.stored (KeyedAt.materializedProc s.q override _ now)) (keyedAt_clusterKey _ _),
        h.copied⟩
  | delete =>
    refine ⟨fun k' ad hl => h.stored k' ad ?_, h.copied⟩
    simp only [step, Store.lookup_delete] at hl
    split_ifs at hl
    exact hl

theorem run_wellKeyed (opts : Options) (evs : List (Event E)) : WellKeyed (run (init opts : Sys E) evs) :=
  Runs.foldl_inv (P := WellKeyed) (fun _ ev h => step_wellKeyed h ev) (wellKeyed_init opts) evs

/-- **Every stored proc ad carries the ids of its key.** -/
theorem reachable_wellKeyed {q : Queue E} (hq : Reachable q) (h : q.coll.lookup k = some ad) : KeyedAt k ad := by
  obtain ⟨opts, evs, rfl⟩ := hq
  exact (run_wellKeyed opts evs).stored k ad h

end Sys

/-! ## A queue with one submitted job -/

/-- a pool with one super user -/
def poolOptions : Options where
  scheddName := "schedd"
  uidDomain := "pool"
  superUsers := ["condor"]
  mayImpersonate := some fun _ => true
  immutableAttrs := []
  protectedAttrs := []
  secureAttrs := []
  allUsersTrusted := false
  ignoreSecureAttrs := true

/-- alice submits cluster 1 with one proc -/
def aliceSubmits : List (Sys.Event Value) :=
  [.begin 0 "alice@pool", .request 0 (.newCluster none), .request 0 (.newProc 1),
    .request 0 (.setAttribute (clusterKey 1) "Cmd" "\"/bin/true\""),
    .request 0 (.setAttribute (clusterKey 1) "JobUniverse" "7"),
    .request 0 (.setAttribute (clusterKey 1) "AccountingGroup" "\"physics\""), .commit 0 100 none]

def aliceQueue : Queue Value := (Sys.run (Sys.init poolOptions) aliceSubmits).q

theorem aliceQueue_reachable : Sys.Reachable aliceQueue := ⟨poolOptions, aliceSubmits, rfl⟩

example : aliceQueue.coll.keys = [⟨1, -1⟩, ⟨1, 0⟩] ∧
    (aliceQueue.coll.get ⟨1, 0⟩).map (fun ad => (ad .owner, ad .jobUniverse, ad .globalJobId)) =
      some (some (.str "alice"), some (.int 7), some (.str "schedd#1.0#100")) := by
  decide +kernel

end AccessPoint
