/-
Cluster ads and the procs that inherit from them (internal/queue/txn.go, actions.go, factory.go).

A cluster ad leaves the store by a commit that destroys it, by a removal of the id c.-1 and by the cleanup of a factory;
nothing ties that to the procs that are chained to it, nor to the copies of its ads that other writers hold. The machine
is `Sys`, which interleaves all of these, with a record of the clusters that committed transactions have destroyed.

- `destroy_inv`: the invariant, kept by every event that deletes a cluster ad together with its procs and writes back
  only ads that are still there.
- `no_orphans`: in every run of such events every stored proc has its cluster ad, and a destroyed cluster stays empty.
- `destroyed_cluster_keeps_proc`: a transaction that submits a job and destroys its cluster stores the job alone.
-/
import AccessPoint.Queue.System

namespace AccessPoint

open ClassAdLib Txn AList

variable {E : Type}

/-- the queue with all its writers, the clusters each open transaction has called `DestroyCluster` on, and those that
committed transactions have destroyed -/
structure Destruction (E : Type) where
  sys : Sys E
  called : ℕ → List ℤ
  razed : List ℤ

namespace Destruction

variable [ClassAdLib E]

def init (opts : Options) : Destruction E := ⟨Sys.init opts, fun _ => [], []⟩

/-- the clusters a request destroys: that of an accepted `DestroyCluster` -/
def calls (d : Destruction E) (conn : ℕ) : Txn.Op → List ℤ
  | .destroyCluster c =>
    match d.sys.txns.lookup conn with
    | none => []
    | some t => if (Txn.destroyCluster d.sys.q t c).1 = none then [c] else []
  | _ => []

/-- the commit of the connection is accepted -/
def accepts (d : Destruction E) (conn : ℕ) (now : ℤ) (updErr : Option String) : Bool :=
  match d.sys.txns.lookup conn with
  | none => false
  | some t => (Txn.commitError d.sys.q t now updErr).isNone

def step (d : Destruction E) (ev : Sys.Event E) : Destruction E where
  sys := d.sys.step ev
  called :=
    match ev with
    | .begin conn _ => Function.update d.called conn []
    | .request conn op => Function.update d.called conn (d.calls conn op ++ d.called conn)
    | .commit conn _ _ => Function.update d.called conn []
    | .abort conn => Function.update d.called conn []
    | _ => d.called
  razed :=
    match ev with
    | .commit conn now updErr => if d.accepts conn now updErr then d.called conn ++ d.razed else d.razed
    | _ => d.razed

/-- a commit takes a cluster ad away only with everything that is stored or staged in the cluster -/
def WholeClusters (coll : Store E) (t : Txn E) : Prop :=
  ∀ k ∈ t.destroyed, k.proc = -1 → (∀ k' ∈ coll.keys, k'.cluster = k.cluster → k' ∈ t.destroyed) ∧
    ∀ k' ∈ t.pending.keys, k'.cluster = k.cluster → k' ∈ t.destroyed

/-- an event that respects the chain from procs to cluster ads: an accepted commit takes whole clusters and stages
nothing in a destroyed one, a copy is written back only while the ad it was made from is stored, a proc is materialized
only while its cluster ad is, and a cluster ad is removed on its own only when no proc is left -/
def Respects (d : Destruction E) : Sys.Event E → Prop
  | .commit conn now updErr =>
    match d.sys.txns.lookup conn with
    | none => True
    | some t => Txn.commitError d.sys.q t now updErr = none →
        WholeClusters d.sys.q.coll t ∧ ∀ k ∈ t.pending.keys, k.cluster ∉ d.razed
  | .write i _ =>
    match d.sys.copies[i]? with
    | none => True
    | some (k, _) => k ∈ d.sys.q.coll
  | .materialize i _ _ _ _ _ _ =>
    match d.sys.copies[i]? with
    | none => True
    | some (k, _) => clusterKey k.cluster ∈ d.sys.q.coll
  | .delete k => k.proc = -1 → ∀ k' ∈ d.sys.q.coll.keys, k'.cluster = k.cluster → k'.proc < 0
  | _ => True

instance (coll : Store E) (t : Txn E) : Decidable (WholeClusters coll t) := by
  unfold WholeClusters
  infer_instance

instance (d : Destruction E) (ev : Sys.Event E) : Decidable (d.Respects ev) := by
  cases ev with
  | commit | write | materialize =>
    unfold Respects; dsimp only; split <;> infer_instance
  | delete => unfold Respects; infer_instance
  | _ => exact .isTrue trivial

/-! ## The invariant -/

/-- every stored proc has its cluster ad -/
def Chained (coll : Store E) : Prop := ∀ k ∈ coll, 0 ≤ k.proc → clusterKey k.cluster ∈ coll

structure Inv (d : Destruction E) : Prop where
  chained : Chained d.sys.q.coll
  empty : ∀ c ∈ d.razed, ∀ k ∈ d.sys.q.coll, k.cluster ≠ c
  marked : ∀ conn t, d.sys.txns.lookup conn = some t → ∀ c ∈ d.called conn, clusterKey c ∈ t.destroyed

theorem init_inv (opts : Options) : Inv (init opts : Destruction E) where
  chained := fun k hk => by simp [init, Sys.init, Queue.openNew] at hk
  empty := fun c hc => by simp [init] at hc
  marked := fun conn t ht => by simp [init, Sys.init] at ht

variable {k : JobKey}

omit [ClassAdLib E] in
/-- one more ad, of a cluster whose ad is stored -/
theorem chained_put {coll : Store E} (h : Chained coll) (ad : Ad E)
    (hk : 0 ≤ k.proc → clusterKey k.cluster ∈ coll) : Chained (coll.put k ad) := by
  intro k' hk' hp
  rcases (mem_insert _).1 hk' with rfl | hk'
  · exact (mem_insert _).2 (.inr (hk hp))
  · exact (mem_insert _).2 (.inr (h k' hk' hp))

variable {t : Txn E} {q : Queue E}

/-- the keys after an accepted commit: not destroyed, and stored before, staged, or the cluster ad of a staged key -/
theorem committed_mem {now : ℤ} :
    k ∈ (Txn.committed q t now).coll ↔
      k ∉ t.destroyed ∧ (k ∈ q.coll ∨ k ∈ t.pending ∨ k.proc = -1 ∧ t.touches k.cluster = true) := by
  have hstaged : (stagedAtCommit t k).isSome = true ↔ k ∈ t.pending ∨ k.proc = -1 ∧ t.touches k.cluster = true := by
    rw [← lookup_isSome]
    unfold stagedAtCommit
    cases t.pending.lookup k with
    | some => simp
    | none => by_cases hc : k.proc = -1 ∧ t.touches k.cluster = true <;> simp [hc]
  rw [← lookup_isSome, committed_lookup]
  by_cases hd : k ∈ t.destroyed
  · simp [hd]
  · rw [if_neg hd, ← hstaged, ← lookup_isSome]
    cases stagedAtCommit t k <;> simp [hd]

omit [ClassAdLib E] in
/-- what whole clusters means for a key that survives the commit: the cluster ad is not taken away -/
theorem WholeClusters.keeps {coll : Store E} (h : WholeClusters coll t) (hd : k ∉ t.destroyed)
    (hk : k ∈ coll ∨ k ∈ t.pending) : clusterKey k.cluster ∉ t.destroyed := by
  intro hc
  obtain ⟨hstored, hstaged⟩ := h (clusterKey k.cluster) hc rfl
  rcases hk with hk | hk
  · exact hd (hstored k (mem_keys.1 hk) rfl)
  · exact hd (hstaged k (mem_keys.1 hk) rfl)

theorem chained_commit (now : ℤ) (h : Chained q.coll) (hw : WholeClusters q.coll t) :
    Chained (Txn.committed q t now).coll := by
  intro k hk hp
  obtain ⟨hd, hfrom⟩ := committed_mem.1 hk
  refine committed_mem.2 ?_
  rcases hfrom with hk | hk | ⟨hneg, -⟩
  · exact ⟨hw.keeps hd (.inl hk), .inl (h k hk hp)⟩
  · exact ⟨hw.keeps hd (.inr hk), .inr (.inr ⟨rfl, touches_of_mem (k := k) hk⟩)⟩
  · omega

/-- nothing of a cluster is left when its ad is destroyed -/
theorem commit_empties {now c : ℤ} (hw : WholeClusters q.coll t)
    (hc : clusterKey c ∈ t.destroyed) : ∀ k ∈ (Txn.committed q t now).coll, k.cluster ≠ c := by
  rintro k hk rfl
  obtain ⟨hd, hfrom⟩ := committed_mem.1 hk
  rcases hfrom with hk | hk | ⟨hneg, -⟩
  · exact hw.keeps hd (.inl hk) hc
  · exact hw.keeps hd (.inr hk) hc
  · rw [← eq_clusterKey hneg] at hc
    exact hd hc

/-- a commit that stages nothing in a cluster brings nothing into it -/
theorem commit_stays_empty {now c : ℤ} (he : ∀ k ∈ q.coll, k.cluster ≠ c)
    (ht : ∀ k ∈ t.pending.keys, k.cluster ≠ c) : ∀ k ∈ (Txn.committed q t now).coll, k.cluster ≠ c := by
  rintro k hk rfl
  obtain ⟨-, hk | hk | ⟨-, htouch⟩⟩ := committed_mem.1 hk
  · exact he k hk rfl
  · exact ht k (mem_keys.1 hk) rfl
  · obtain ⟨k', hk', hcl⟩ := (touches_iff t k.cluster).1 htouch
    exact ht k' (mem_keys.1 hk') hcl

/-- a destroyed mark is never taken back -/
theorem destroyed_mono {t t' : Txn E} {o : Txn.Op} (h : Txn.Effect q t o t')
    (hk : k ∈ t.destroyed) : k ∈ t'.destroyed := by
  cases h with
  | destroyProc => exact List.mem_cons_of_mem _ hk
  | destroyCluster => exact List.mem_cons_of_mem _ (List.mem_append_right _ hk)
  | _ => exact hk

/-- an accepted `DestroyCluster` marks the cluster ad -/
theorem destroyCluster_marks {c : ℤ} (h : (Txn.destroyCluster q t c).1 = none) :
    clusterKey c ∈ (Txn.destroyCluster q t c).2.destroyed := by
  unfold destroyCluster at h ⊢
  by_cases ha : t.anonymous = true
  · rw [if_pos ha] at h
    cases h
  rw [if_neg ha] at h ⊢
  cases ho : (committedOwner q (clusterKey c)).bind (checkOwner q t (clusterKey c)) with
  | some => simp [ho] at h
  | none =>
    cases hp : (clusterProcs q c).findSome? fun x => checkOwner q t x.1 (q.jobUser x.2) with
    | some => simp [ho, hp] at h
    | none => simp

variable {d : Destruction E}

theorem calls_marked {conn : ℕ} (ht : d.sys.txns.lookup conn = some t) {op : Txn.Op}
    {c : ℤ} (hc : c ∈ d.calls conn op) : clusterKey c ∈ (Txn.step (d.sys.q, t) op).2.destroyed := by
  cases op with
  | destroyCluster c' =>
    simp only [calls, ht] at hc
    split_ifs at hc with hok
    · obtain rfl : c = c' := by simpa using hc
      exact destroyCluster_marks hok
    · cases hc
  | _ => cases hc

omit [ClassAdLib E] in
/-- the table of open transactions with one of them replaced or gone -/
theorem marked_update {called : ℕ → List ℤ} {txns txns' : KeyMap ℕ (Txn E)} {conn : ℕ} {cs : List ℤ}
    (h : ∀ conn' t, txns.lookup conn' = some t → ∀ c ∈ called conn', clusterKey c ∈ t.destroyed)
    (hother : ∀ conn', conn' ≠ conn → txns'.lookup conn' = txns.lookup conn')
    (hself : ∀ t, txns'.lookup conn = some t → ∀ c ∈ cs, clusterKey c ∈ t.destroyed) :
    ∀ conn' t, txns'.lookup conn' = some t →
      ∀ c ∈ Function.update called conn cs conn', clusterKey c ∈ t.destroyed := by
  intro conn' t ht c hc
  by_cases he : conn' = conn
  · subst he
    rw [Function.update_self] at hc
    exact hself t ht c hc
  · rw [Function.update_of_ne he] at hc
    exact h conn' t (hother conn' he ▸ ht) c hc

theorem commit_inv (h : Inv d) {conn : ℕ} {now : ℤ} {updErr : Option String}
    (hr : d.Respects (.commit conn now updErr)) : Inv (d.step (.commit conn now updErr)) := by
  cases ht : d.sys.txns.lookup conn with
  | none =>
    have hstep : d.step (.commit conn now updErr) = ⟨d.sys, Function.update d.called conn [], d.razed⟩ := by
      simp [step, Sys.step, accepts, ht]
    rw [hstep]
    exact ⟨h.chained, h.empty, marked_update h.marked (fun _ _ => rfl) fun t _ c hc => absurd hc List.not_mem_nil⟩
  | some t =>
    have hmarked : ∀ conn' t', (d.sys.txns.erase conn).lookup conn' = some t' →
        ∀ c ∈ Function.update d.called conn [] conn', clusterKey c ∈ t'.destroyed :=
      marked_update h.marked (fun conn' hne => lookup_erase_ne hne) fun t _ c hc => absurd hc List.not_mem_nil
    simp only [Respects, ht] at hr
    cases he : commitError d.sys.q t now updErr with
    | some =>
      have hstep : d.step (.commit conn now updErr) =
          ⟨⟨d.sys.q, d.sys.txns.erase conn, d.sys.copies⟩, Function.update d.called conn [], d.razed⟩ := by
        simp [step, Sys.step, accepts, ht, he, commit]
      rw [hstep]
      exact ⟨h.chained, h.empty, hmarked⟩
    | none =>
      obtain ⟨hwhole, hfresh⟩ := hr he
      have hstep : d.step (.commit conn now updErr) =
          ⟨⟨committed d.sys.q t now, d.sys.txns.erase conn, d.sys.copies⟩, Function.update d.called conn [],
            d.called conn ++ d.razed⟩ := by
        simp [step, Sys.step, accepts, ht, he, commit]
      rw [hstep]
      refine ⟨chained_commit now h.chained hwhole, fun c hc => ?_, hmarked⟩
      rcases List.mem_append.1 hc with hc | hc
      · exact commit_empties hwhole (h.marked conn t ht c hc)
      · exact commit_stays_empty (h.empty c hc) fun k hk hkc => hfresh k hk (hkc ▸ hc)

theorem request_inv (h : Inv d) (conn : ℕ) (op : Txn.Op) : Inv (d.step (.request conn op)) := by
  cases ht : d.sys.txns.lookup conn with
  | none =>
    have hstep : d.step (.request conn op) =
        ⟨d.sys, Function.update d.called conn (d.calls conn op ++ d.called conn), d.razed⟩ := by
      simp [step, Sys.step, ht]
    rw [hstep]
    refine ⟨h.chained, h.empty, marked_update h.marked (fun _ _ => rfl) fun t htx => ?_⟩
    rw [ht] at htx
    cases htx
  | some t =>
    have hbase := step_base (d.sys.q, t) op
    have hstep : d.step (.request conn op) =
        ⟨⟨(Txn.step (d.sys.q, t) op).1, d.sys.txns.insert conn (Txn.step (d.sys.q, t) op).2, d.sys.copies⟩,
          Function.update d.called conn (d.calls conn op ++ d.called conn), d.razed⟩ := by
      simp [step, Sys.step, ht]
    rw [hstep]
    refine ⟨?_, fun c hc k hk => h.empty c hc k (hbase.coll ▸ hk),
      marked_update h.marked (fun conn' hne => lookup_insert_ne hne) fun t' ht' c hc => ?_⟩
    · show Chained (Txn.step (d.sys.q, t) op).1.coll
      rw [hbase.coll]
      exact h.chained
    · rw [lookup_insert] at ht'
      cases ht'
      rcases List.mem_append.1 hc with hc | hc
      · exact calls_marked ht hc
      · exact destroyed_mono (step_effect (d.sys.q, t) op) (h.marked conn t ht c hc)

/-- **The step.** An event that respects the chain keeps it. -/
theorem destroy_inv {ev : Sys.Event E} (hr : d.Respects ev) (h : Inv d) : Inv (d.step ev) := by
  cases ev with
  | commit => exact commit_inv h hr
  | request conn op => exact request_inv h conn op
  | begin =>
    exact ⟨h.chained, h.empty, marked_update h.marked (fun conn' hne => lookup_insert_ne hne)
      fun t _ c hc => absurd hc List.not_mem_nil⟩
  | abort =>
    exact ⟨h.chained, h.empty, marked_update h.marked (fun conn' hne => lookup_erase_ne hne)
      fun t _ c hc => absurd hc List.not_mem_nil⟩
  | read k =>
    have hstep : (d.sys.step (.read k)).q = d.sys.q ∧ (d.sys.step (.read k)).txns = d.sys.txns := by
      simp only [Sys.step]
      split <;> exact ⟨rfl, rfl⟩
    refine ⟨?_, ?_, fun conn t ht => h.marked conn t (hstep.2 ▸ ht)⟩
    · show Chained (d.sys.step (.read k)).q.coll
      rw [hstep.1]
      exact h.chained
    · show ∀ c ∈ d.razed, ∀ k' ∈ (d.sys.step (.read k)).q.coll, k'.cluster ≠ c
      rw [hstep.1]
      exact h.empty
  | write i f =>
    cases hi : d.sys.copies[i]? with
    | none =>
      have hstep : d.step (.write i f) = d := by simp [step, Sys.step, hi]
      rw [hstep]
      exact h
    | some kad =>
      obtain ⟨k, ad⟩ := kad
      simp only [Respects, hi] at hr
      have hcoll : (d.step (.write i f)).sys.q.coll = d.sys.q.coll.put k (f.apply ad) := by simp [step, Sys.step, hi]
      have htxns : (d.step (.write i f)).sys.txns = d.sys.txns := by simp [step, Sys.step, hi]
      refine ⟨?_, fun c hc k' hk' => ?_, fun conn t ht => h.marked conn t (htxns ▸ ht)⟩
      · rw [hcoll]
        exact chained_put h.chained _ fun hp => h.chained k hr hp
      · rw [hcoll] at hk'
        rcases (mem_insert _).1 hk' with rfl | hk'
        · exact h.empty c hc k' hr
        · exact h.empty c hc k' hk'
  | materialize i proc override np nr pa now =>
    cases hi : d.sys.copies[i]? with
    | none =>
      have hstep : d.step (.materialize i proc override np nr pa now) = d := by simp [step, Sys.step, hi]
      rw [hstep]
      exact h
    | some kad =>
      obtain ⟨k, ad⟩ := kad
      simp only [Respects, hi] at hr
      have hcoll : (d.step (.materialize i proc override np nr pa now)).sys.q.coll =
          (d.sys.q.coll.put ⟨k.cluster, proc⟩ (d.sys.q.materializedProc override ⟨k.cluster, proc⟩ now)).put
            (clusterKey k.cluster) (Queue.advancedCluster ad np nr pa) := by simp [step, Sys.step, hi]
      have htxns : (d.step (.materialize i proc override np nr pa now)).sys.txns = d.sys.txns := by
        simp [step, Sys.step, hi]
      refine ⟨?_, fun c hc k' hk' => ?_, fun conn t ht => h.marked conn t (htxns ▸ ht)⟩
      · rw [hcoll]
        have hproc := chained_put h.chained (k := ⟨k.cluster, proc⟩)
          (d.sys.q.materializedProc override ⟨k.cluster, proc⟩ now) fun _ => hr
        refine chained_put hproc _ fun hp => ?_
        rw [clusterKey_proc] at hp
        omega
      · rw [hcoll] at hk'
        rcases (mem_insert _).1 hk' with rfl | hk'
        · exact h.empty c hc _ hr
        · rcases (mem_insert _).1 hk' with rfl | hk'
          · exact h.empty c hc (clusterKey k.cluster) hr
          · exact h.empty c hc k' hk'
  | delete =>
    refine ⟨fun k' hk' hp => ?_, fun c hc k' hk' => h.empty c hc k' (mem_erase.1 hk').2, h.marked⟩
    obtain ⟨-, hk'⟩ := mem_erase.1 hk'
    refine mem_erase.2 ⟨fun he => ?_, h.chained k' hk' hp⟩
    have hneg := hr (he ▸ rfl) k' (mem_keys.1 hk') (he ▸ rfl)
    omega
  | setAuthz | archive | unnoteFactory => exact ⟨h.chained, h.empty, h.marked⟩

/-- **No orphans, and a destroyed cluster stays empty.** In every run of events that respect the chain. -/
theorem no_orphans (opts : Options) (evs : List (Sys.Event E)) (h : Runs.Meets step Respects (init opts) evs) :
    (∀ k ∈ (evs.foldl step (init opts)).sys.q.coll, 0 ≤ k.proc →
        clusterKey k.cluster ∈ (evs.foldl step (init opts)).sys.q.coll) ∧
      ∀ c ∈ (evs.foldl step (init opts)).razed, ∀ k ∈ (evs.foldl step (init opts)).sys.q.coll, k.cluster ≠ c := by
  have hinv : Inv (evs.foldl step (init opts)) :=
    Runs.foldl_inv_of (fun _ _ hr hd => destroy_inv hr hd) (init_inv opts) h
  exact ⟨hinv.chained, hinv.empty⟩

end Destruction

/-! ## Runs -/

/-- alice submits cluster 1 and destroys it in a later transaction -/
def submitThenDestroy : List (Sys.Event Value) :=
  aliceSubmits ++ [.begin 1 "alice@pool", .request 1 (.destroyCluster 1), .commit 1 200 none]

theorem no_orphans_destroy :
    (∀ k ∈ (submitThenDestroy.foldl Destruction.step (Destruction.init poolOptions)).sys.q.coll, k.cluster ≠ 1) ∧
      (submitThenDestroy.foldl Destruction.step (Destruction.init poolOptions)).razed = [1] := by
  have hrazed : (submitThenDestroy.foldl Destruction.step (Destruction.init poolOptions)).razed =
    [1] := by decide +kernel
  exact ⟨(Destruction.no_orphans poolOptions submitThenDestroy (by decide +kernel)).2 1 (by rw [hrazed]; simp), hrazed⟩

/-- alice submits a job and destroys its cluster in the same transaction -/
def submitAndDestroy : List (Sys.Event Value) :=
  [.begin 0 "alice@pool", .request 0 (.newCluster none), .request 0 (.newProc 1), .request 0 (.destroyCluster 1),
    .commit 0 100 none]

/-- **A destroyed cluster keeps its proc.** `DestroyCluster` collects the committed procs only; the staged one is
committed, without the cluster ad. -/
theorem destroyed_cluster_keeps_proc :
    (submitAndDestroy.foldl Destruction.step (Destruction.init poolOptions)).razed = [1] ∧
      (submitAndDestroy.foldl Destruction.step (Destruction.init poolOptions)).sys.q.coll.keys = [⟨1, 0⟩] := by
  decide +kernel

end AccessPoint
