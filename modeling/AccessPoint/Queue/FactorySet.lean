/-
The set of job factories (internal/queue/factory.go `noteFactory`, `unnoteFactory`, `recoverFactories`; the end of
`Txn.Commit`; `MaybeCleanupFactoryCluster` and `actOnJob` of actions.go).

The queue keeps the factory clusters in memory: a commit adds a cluster when the ad it stages names a digest file, and
drops it when its cluster ad is destroyed; a cleanup drops it. After a restart the set is what the stored cluster ads of
the allocated clusters say. A commit that rewrites the cluster ad of a factory without the digest file leaves the set
behind the store, and so does an action that removes the cluster ad itself.

- `InStep`: the set is what the store says.
- `factories_recovered`: along every run of operations that meet `Regular`.
- `edit_forgets_factory`: after an edit of one attribute of a factory's cluster ad, a restart forgets the factory.
-/
import AccessPoint.Queue.ReadModifyWrite
import AccessPoint.Queue.Restart
import AccessPoint.Sched.Rewrites

namespace AccessPoint

open ClassAdLib Store Queue List

variable {E : Type} [ClassAdLib E]

/-- the operations on the queue, each completed before the next begins -/
inductive FactoryOp (E : Type) where
  /-- `NewCluster` of some transaction takes the next cluster id -/
  | allocate (putErr : Option String)
  | commit (t : Txn E) (now : ℤ) (updErr : Option String)
  /-- `ApplyAction`; `env` is what the environment decides on the way -/
  | act (hook : Bool) (k : JobKey) (req : ActionRequest) (env : ℕ → Choice)
  | materialize (c proc : ℤ) (override : Option (Ad E)) (nextProcId nextRow paused now : ℤ) (updErr : Option String)
  | pause (c code : ℤ) (written : Bool)
  | cleanup (c : ℤ)

namespace FactoryOp

/-- the queue after the operation; the history is left out -/
def apply (q : Queue E) : FactoryOp E → Queue E
  | .allocate putErr => (q.allocClusterID putErr).2
  | .commit t now updErr => (Txn.commit q t now updErr).2.1
  | .act hook k req env => { q with coll := (q.coll.alone env (q.applyAction hook k req)).2.1 }
  | .materialize c proc override np nr pa now updErr =>
    match q.materializeProc c proc override np nr pa now updErr with
    | .ok (q', _) => q'
    | .error _ => q
  | .pause c code written => q.pauseFactory c code written
  | .cleanup c => (q.maybeCleanupFactoryCluster c).2

end FactoryOp

/-! ## Digest files -/

/-- the value of the expression does not depend on the ad it stands in -/
def Constant (e : E) : Prop := ∀ ad ad' : Ad E, eval ad e = eval ad' e

theorem isFactoryAd_congr {ad ad' : Ad E} (h : ad' .jobMaterializeDigestFile = ad .jobMaterializeDigestFile)
    (hc : ∀ e, ad .jobMaterializeDigestFile = some e → Constant e) : Txn.isFactoryAd ad' = Txn.isFactoryAd ad := by
  unfold Txn.isFactoryAd Ad.evaluateAttrString Ad.evaluateAttr
  rw [h]
  cases he : ad .jobMaterializeDigestFile with
  | none => rfl
  | some e => simp only [hc e he ad' ad]

theorem isFactoryAd_none {ad : Ad E} (h : ad .jobMaterializeDigestFile = none) : Txn.isFactoryAd ad = false := by
  unfold Txn.isFactoryAd
  rw [Ad.evaluateAttrString_none h]

theorem materialize_digest (q : Queue E) (t : Txn E) (ad : Ad E) (k : JobKey) (now : ℤ) :
    Txn.materialize q t ad k now .jobMaterializeDigestFile = ad .jobMaterializeDigestFile := by
  rw [Txn.materialize_apply]
  simp [Txn.forced, Txn.defaulted]

/-! ## Actions -/

/-- what an action does to the store -/
inductive ActEffect (s : Store E) (k : JobKey) (req : ActionRequest) : Store E → Prop where
  | nothing : ActEffect s k req s
  | put (ad ad' : Ad E) (hg : s.get k = some ad) (hd : ad' .jobMaterializeDigestFile = ad .jobMaterializeDigestFile) :
      ActEffect s k req (s.put k ad')
  | delete (hk : req.kind = .remove ∨ req.kind = .removeX) : ActEffect s k req (s.delete k)

section Effect

variable {s : Store E} {k : JobKey} {ad : Ad E} (env : ℕ → Choice) (hook : Bool) (req : ActionRequest) (now : ℤ)

theorem holdJob_effect (hg : s.get k = some ad) :
    ActEffect s k req (s.alone env (Queue.holdJob hook k req true ad now)).2.1 := by
  unfold holdJob
  dsimp only
  split_ifs with hheld hgone
  · exact .nothing
  · exact .nothing
  · simp only [Prog.bind_eq, alone_bind, vacate_alone, alone_put]
    split_ifs with hok
    · exact .put ad _ hg (holdAd_butFor req _ now ad _ (by decide))
    · exact .nothing
  · exact .nothing

theorem releaseJob_effect (hg : s.get k = some ad) :
    ActEffect s k req (s.alone env (Queue.releaseJob k req true ad now)).2.1 := by
  unfold releaseJob
  split_ifs with hheld hcode
  · exact .nothing
  · exact .nothing
  · simp only [Prog.bind_eq, alone_bind, alone_put]
    split_ifs with hok
    · exact .put ad _ hg (releaseAd_butFor req now ad _ (by decide))
    · exact .nothing
  · exact .nothing

theorem removeJob_effect (hk : req.kind = .remove ∨ req.kind = .removeX) :
    ActEffect s k req (s.alone env (Queue.removeJob hook k req true ad now)).2.1 := by
  unfold removeJob
  dsimp only
  split_ifs with hgone
  · exact .nothing
  · simp only [Prog.bind_eq, alone_bind, vacate_alone, archiveAndDelete]
    exact .delete hk
  · exact .nothing

end Effect

theorem applyAction_effect (q : Queue E) (hook : Bool) (s : Store E) (k : JobKey) (req : ActionRequest)
    (env : ℕ → Choice) :
    ActEffect s k req (s.alone env (q.applyAction hook k req)).2.1 := by
  unfold applyAction actOnJob
  simp only [Prog.bind_eq, alone_bind, alone_get]
  cases hg : s.get k with
  | none => exact .nothing
  | some ad =>
    by_cases hmay : q.mayAct req ad = true
    · simp only [hmay, not_true, if_false, alone_bind, alone_clock]
      cases hkind : req.kind with
      | hold => exact holdJob_effect _ hook req _ hg
      | release => exact releaseJob_effect _ req _ hg
      | remove => exact removeJob_effect _ hook req _ (.inl hkind)
      | removeX => exact removeJob_effect _ hook req _ (.inr hkind)
    · simp only [hmay]
      exact .nothing

/-! ## The set and the store -/

/-- the factory set is what the cluster ads say, and these are of allocated clusters -/
structure InStep (q : Queue E) : Prop where
  agree : ∀ c, c ∈ q.factories ↔ ∃ ad, q.coll.lookup (clusterKey c) = some ad ∧ Txn.isFactoryAd ad = true
  range : ∀ c ∈ q.factories, 1 ≤ c ∧ c < q.nextID
  constant : ∀ c ad e, q.coll.lookup (clusterKey c) = some ad → ad .jobMaterializeDigestFile = some e → Constant e

theorem mem_recoverFactories (q : Queue E) (c : ℤ) :
    c ∈ q.recoverFactories ↔
      (1 ≤ c ∧ c < q.nextID) ∧ ∃ ad, q.coll.lookup (clusterKey c) = some ad ∧ Txn.isFactoryAd ad = true := by
  have hget : ∀ c, q.coll.get (clusterKey c) = q.coll.lookup (clusterKey c) := fun c => get_neg _ (by simp)
  unfold recoverFactories
  simp only [mem_filter, mem_map, mem_range, hget]
  constructor
  · rintro ⟨⟨n, hn, hc⟩, had⟩
    have hlt : (n : ℤ) < q.nextID.toNat := by exact_mod_cast hn
    have hc' : (n : ℤ) = c := hc
    cases hl : q.coll.lookup (clusterKey c) with
    | none =>
      rw [hl] at had
      cases had
    | some ad =>
      simp only [hl, Bool.and_eq_true, decide_eq_true_eq] at had
      exact ⟨⟨had.1, by omega⟩, ad, rfl, had.2⟩
  · rintro ⟨⟨hpos, _⟩, _, hl, hfact⟩
    refine ⟨⟨c.toNat, by omega, ?_⟩, ?_⟩
    · exact Int.toNat_of_nonneg (by omega)
    · simp [hl, hpos, hfact]

variable {q : Queue E}

/-- a set in step with the store is the one a restart rebuilds -/
theorem InStep.recovered (h : InStep q) (c : ℤ) : c ∈ q.factories ↔ c ∈ q.recoverFactories := by
  rw [mem_recoverFactories]
  exact ⟨fun hc => ⟨h.range c hc, (h.agree c).1 hc⟩, fun hc => (h.agree c).2 hc.2⟩

/-- the cluster ads keep what they say about digest files -/
theorem InStep.rewrite {q q' : Queue E} (h : InStep q) (hfactories : q'.factories = q.factories)
    (hnext : q.nextID ≤ q'.nextID)
    (hcoll : ∀ c, q'.coll.lookup (clusterKey c) = q.coll.lookup (clusterKey c) ∨
      ∃ ad ad', q.coll.lookup (clusterKey c) = some ad ∧ q'.coll.lookup (clusterKey c) = some ad' ∧
        ad' .jobMaterializeDigestFile = ad .jobMaterializeDigestFile) : InStep q' := by
  refine ⟨fun c => ?_, fun c hc => ?_, fun c ad' e hl he => ?_⟩
  · rw [hfactories, h.agree c]
    rcases hcoll c with heq | ⟨ad, ad', hl, hl', hd⟩
    · rw [heq]
    · have hsame := isFactoryAd_congr hd fun e => h.constant c ad e hl
      simp only [hl, hl', Option.some.injEq, exists_eq_left', hsame]
  · rw [hfactories] at hc
    have hrange := h.range c hc
    omega
  · rcases hcoll c with heq | ⟨ad, ad'', hl', hl'', hd⟩
    · rw [heq] at hl
      exact h.constant c ad' e hl he
    · rw [hl] at hl''
      obtain rfl := Option.some.inj hl''
      rw [hd] at he
      exact h.constant c ad e hl' he

/-! ## Commits -/

/-- the cluster ad the transaction stages for `c` names a digest file -/
def Txn.stagesFactory (t : Txn E) (c : ℤ) : Bool := (t.pending.lookup (clusterKey c)).any Txn.isFactoryAd

theorem mem_commitFactories (fs : List ℤ) (destroyed : List JobKey) (batch : KeyMap JobKey (Ad E)) (c : ℤ) :
    c ∈ Txn.commitFactories fs destroyed batch ↔
      (c ∈ fs ∧ ∀ k ∈ destroyed, k.proc < 0 → k.cluster ≠ c) ∨
        ∃ k ad, batch.lookup k = some ad ∧ k.proc < 0 ∧ Txn.isFactoryAd ad = true ∧ k.cluster = c := by
  have hdrop : ∀ (ks : List JobKey) (fs : List ℤ), c ∈ ks.foldl (fun fs k => Txn.unnoteFactory fs k.cluster) fs ↔
      c ∈ fs ∧ ∀ k ∈ ks, k.cluster ≠ c := by
    intro ks
    induction ks with
    | nil => simp
    | cons k ks ih =>
      intro fs
      rw [foldl_cons, ih]
      simp only [Txn.unnoteFactory, mem_filter, decide_eq_true_eq, forall_mem_cons, and_assoc]
      tauto
  have hadd : ∀ (es : List (Sigma fun _ : JobKey => Ad E)) (fs : List ℤ),
      c ∈ es.foldl (fun fs e => Txn.noteFactory fs e.1.cluster) fs ↔ c ∈ fs ∨ ∃ e ∈ es, e.1.cluster = c := by
    intro es
    induction es with
    | nil => simp
    | cons e es ih =>
      intro fs
      rw [foldl_cons, ih]
      simp only [Txn.noteFactory, mem_insert_iff, exists_mem_cons_iff]
      tauto
  unfold Txn.commitFactories
  simp only [hadd, hdrop, mem_filter, decide_eq_true_eq]
  constructor
  · rintro (⟨hc, hk⟩ | ⟨e, ⟨he, hp, hf⟩, rfl⟩)
    · exact .inl ⟨hc, fun k hin hneg => hk k ⟨hin, hneg⟩⟩
    · exact .inr ⟨e.1, e.2, AList.mem_lookup_iff.2 he, hp, hf, rfl⟩
  · rintro (⟨hc, hk⟩ | ⟨k, ad, hl, hp, hf, rfl⟩)
    · exact .inl ⟨hc, fun k hin => hk k hin.1 hin.2⟩
    · exact .inr ⟨⟨k, ad⟩, ⟨AList.mem_lookup_iff.1 hl, hp, hf⟩, rfl⟩

/-- what a commit must respect for the set to stay in step -/
structure Txn.Registers (q : Queue E) (t : Txn E) : Prop where
  /-- the only key with a negative proc id that it names in a cluster is the one of the cluster ad -/
  keys : ∀ k, k ∈ t.pending ∨ k ∈ t.destroyed → -1 ≤ k.proc
  /-- where it touches a factory, it destroys the cluster ad or stages the digest file again -/
  again : ∀ c ∈ q.factories, t.touches c = true → clusterKey c ∈ t.destroyed ∨ t.stagesFactory c = true
  /-- a new factory is an allocated cluster -/
  allocated : ∀ c, t.stagesFactory c = true → 1 ≤ c ∧ c < q.nextID
  constant : ∀ c ad e, t.pending.lookup (clusterKey c) = some ad → ad .jobMaterializeDigestFile = some e → Constant e

theorem InStep.commit (h : InStep q) {t : Txn E} (ht : t.Registers q) (now : ℤ) : InStep (Txn.committed q t now) := by
  -- the cluster ad of a touched cluster says what was staged for it
  have hstaged : ∀ c, Txn.isFactoryAd (Txn.materialize q t (t.staged (clusterKey c)) (clusterKey c) now) =
    t.stagesFactory c := by
    intro c
    unfold Txn.staged Txn.stagesFactory
    cases hl : t.pending.lookup (clusterKey c) with
    | none => exact isFactoryAd_none (materialize_digest q t Ad.empty (clusterKey c) now)
    | some ad => exact isFactoryAd_congr (materialize_digest q t ad (clusterKey c) now) fun e => ht.constant c ad e hl
  have hkey : ∀ k : JobKey, k.proc < 0 → -1 ≤ k.proc → k = clusterKey k.cluster :=
    fun k hneg hle => eq_clusterKey (by omega)
  have hbatch : ∀ c, clusterKey c ∉ t.destroyed → t.touches c = true →
      (Txn.commitBatch q t now).lookup (clusterKey c) =
        some (Txn.materialize q t (t.staged (clusterKey c)) (clusterKey c) now) := by
    intro c hkept htouch
    rw [Txn.commitBatch_lookup, if_neg hkept, Txn.stagedAtCommit_clusterKey htouch]
    rfl
  have hfactories : ∀ c, c ∈ (Txn.committed q t now).factories ↔
      clusterKey c ∉ t.destroyed ∧
        ((t.touches c = false ∧ c ∈ q.factories) ∨ (t.touches c = true ∧ t.stagesFactory c = true)) := by
    intro c
    refine (mem_commitFactories _ _ _ c).trans ⟨?_, ?_⟩
    · rintro (⟨hc, hkept⟩ | ⟨k, ad, hl, hneg, hfact, rfl⟩)
      · have hkept' : clusterKey c ∉ t.destroyed := fun hin => hkept _ hin (by simp) rfl
        refine ⟨hkept', ?_⟩
        cases htouch : t.touches c with
        | false => exact .inl ⟨rfl, hc⟩
        | true => exact .inr ⟨rfl, (ht.again c hc htouch).resolve_left hkept'⟩
      · rw [Txn.commitBatch_lookup] at hl
        split_ifs at hl with hkept
        obtain ⟨ad', hstage, hmat⟩ := Option.map_eq_some_iff.1 hl
        have htouch : t.touches k.cluster = true := by
          by_contra hno
          rw [Txn.stagedAtCommit_untouched (by simpa using hno)] at hstage
          cases hstage
        have hk : k = clusterKey k.cluster := by
          by_cases hp : k.proc = -1
          · exact eq_clusterKey hp
          · rw [Txn.stagedAtCommit_proc hp] at hstage
            exact hkey k hneg (ht.keys k (.inl ((KeyMap.mem_iff_lookup _ _).2 ⟨ad', hstage⟩)))
        have hstage' := Txn.stagedAtCommit_clusterKey htouch
        rw [← hk, hstage] at hstage'
        refine ⟨by rwa [← hk], .inr ⟨htouch, ?_⟩⟩
        rw [← hstaged, ← hk, ← Option.some.inj hstage', hmat]
        exact hfact
    · rintro ⟨hkept, ⟨-, hc⟩ | ⟨htouch, hstages⟩⟩
      · refine .inl ⟨hc, fun k hin hneg he => hkept ?_⟩
        rw [← he, ← hkey k hneg (ht.keys k (.inr hin))]
        exact hin
      · refine .inr ⟨clusterKey c, _, hbatch c hkept htouch, by simp, ?_, rfl⟩
        rw [hstaged]
        exact hstages
  have hlookup : ∀ c, (Txn.committed q t now).coll.lookup (clusterKey c) =
      if clusterKey c ∈ t.destroyed then none
      else if t.touches c = true then some (Txn.materialize q t (t.staged (clusterKey c)) (clusterKey c) now)
      else q.coll.lookup (clusterKey c) := by
    intro c
    rw [Txn.committed_lookup]
    split_ifs with hkept htouch
    · rfl
    · rw [Txn.stagedAtCommit_clusterKey htouch]
      rfl
    · rw [Txn.stagedAtCommit_untouched (by simpa using htouch)]
      rfl
  refine ⟨fun c => ?_, fun c hc => ?_, fun c ad e hl he => ?_⟩
  · rw [hfactories, hlookup]
    split_ifs with hkept htouch
    · simp [hkept]
    · simp [hkept, htouch, hstaged]
    · simp [hkept, htouch, h.agree c]
  · obtain ⟨-, ⟨-, hc'⟩ | ⟨-, hstages⟩⟩ := (hfactories c).1 hc
    · exact h.range c hc'
    · exact ht.allocated c hstages
  · rw [hlookup] at hl
    split_ifs at hl with hkept htouch
    · rw [← Option.some.inj hl, materialize_digest] at he
      unfold Txn.staged at he
      cases hp : t.pending.lookup (clusterKey c) with
      | none =>
        rw [hp] at he
        cases he
      | some ad' =>
        rw [hp] at he
        exact ht.constant c ad' e hp he
    · exact h.constant c ad e hl he

/-! ## Runs -/

/-- what an operation must respect for the set to stay in step: a commit that is accepted registers its factories, and
no action removes the cluster ad of a factory -/
def FactoryOp.Regular (q : Queue E) : FactoryOp E → Prop
  | .commit t now updErr => Txn.commitError q t now updErr = none → t.Registers q
  | .act _ k req _ => (req.kind = .remove ∨ req.kind = .removeX) → ∀ c ∈ q.factories, k ≠ clusterKey c
  | _ => True

/-- **One operation.** -/
theorem InStep.apply (h : InStep q) {op : FactoryOp E} (hop : op.Regular q) : InStep (op.apply q) := by
  cases op with
  | allocate putErr =>
    cases putErr with
    | some => exact h
    | none =>
      have hle : q.nextID ≤ q.nextID + 1 := by omega
      exact h.rewrite rfl hle fun c => .inl rfl
  | commit t now updErr =>
    simp only [FactoryOp.apply, Txn.commit]
    cases herr : Txn.commitError q t now updErr with
    | some => exact h
    | none => exact h.commit (hop herr) now
  | act hook k req env =>
    have heffect := applyAction_effect q hook q.coll k req env
    simp only [FactoryOp.apply]
    generalize (q.coll.alone env (q.applyAction hook k req)).2.1 = coll at heffect
    cases heffect with
    | nothing => exact h
    | put ad ad' hg hd =>
      refine h.rewrite rfl le_rfl fun c => ?_
      simp only [lookup_put]
      split_ifs with hk
      · subst hk
        rw [get_neg _ (by simp)] at hg
        exact .inr ⟨ad, ad', hg, rfl, hd⟩
      · exact .inl rfl
    | delete hkind =>
      -- the key is not that of a factory's cluster ad
      have hnot : ∀ c, k = clusterKey c → c ∉ q.factories := fun c hk hc => hop hkind c hc hk
      refine ⟨fun c => ?_, h.range, fun c ad e hl he => ?_⟩
      · rw [lookup_delete]
        split_ifs with hk
        · simp [hnot c hk.symm]
        · exact h.agree c
      · rw [lookup_delete] at hl
        split_ifs at hl
        exact h.constant c ad e hl he
  | materialize c proc override np nr pa now updErr =>
    simp only [FactoryOp.apply]
    cases hm : q.materializeProc c proc override np nr pa now updErr with
    | error => exact h
    | ok r =>
      obtain ⟨_, _⟩ := r
      obtain ⟨cluster, -, hg, rfl⟩ := materializeProc_ok hm
      rw [get_neg _ (by simp)] at hg
      refine h.rewrite rfl le_rfl fun c' => ?_
      simp only [lookup_put]
      split_ifs with hk hproc
      · rw [hk]
        exact .inr ⟨cluster, _, hg, rfl, advancedCluster_apply cluster np nr pa _ (by simp)⟩
      · -- the proc is stored under a key that is not the cluster ad's
        have hc : c' = c := congrArg JobKey.cluster hproc
        exact absurd (congrArg clusterKey hc) hk
      · exact .inl rfl
  | pause c =>
    simp only [FactoryOp.apply, pauseFactory]
    cases hg : q.coll.get (clusterKey c) with
    | none => exact h
    | some cluster =>
      simp only
      split_ifs
      · rw [get_neg _ (by simp)] at hg
        refine h.rewrite rfl le_rfl fun c' => ?_
        simp only [lookup_put]
        split_ifs with hk
        · rw [hk]
          exact .inr ⟨cluster, _, hg, rfl, rfl⟩
        · exact .inl rfl
      · exact h
  | cleanup c =>
    simp only [FactoryOp.apply, maybeCleanupFactoryCluster]
    split_ifs with hfact
    · cases hinfo : q.factoryInfo c with
      | none => exact h
      | some =>
        simp only
        split_ifs
        · exact h
        · refine ⟨fun c' => ?_, fun c' hc' => h.range c' (mem_filter.1 hc').1, fun c' ad e hl he => ?_⟩
          · simp only [Txn.unnoteFactory, mem_filter, decide_eq_true_eq, lookup_delete]
            by_cases hc : c' = c
            · simp [hc]
            · have hk : clusterKey c' ≠ clusterKey c := fun he => hc (congrArg JobKey.cluster he)
              simp [hc, hk, h.agree c']
          · rw [lookup_delete] at hl
            split_ifs at hl
            exact h.constant c' ad e hl he
    · exact h

theorem openNew_inStep (opts : Options) : InStep (Queue.openNew opts : Queue E) := by
  refine ⟨fun c => ?_, fun c hc => ?_, fun c ad e hl => ?_⟩
  · simp [openNew]
  · simp [openNew] at hc
  · simp [openNew] at hl

/-- **The factory set is what a restart would rebuild,** after every run of operations in which each accepted commit
registers its factories and no action removes the cluster ad of one. -/
theorem factories_recovered (opts : Options) (ops : List (FactoryOp E))
    (h : Runs.Meets FactoryOp.apply (fun q op => op.Regular q) (Queue.openNew opts) ops) (c : ℤ) :
    c ∈ (ops.foldl FactoryOp.apply (Queue.openNew opts)).factories ↔
      c ∈ (ops.foldl FactoryOp.apply (Queue.openNew opts)).recoverFactories := by
  have hstep : InStep (ops.foldl FactoryOp.apply (openNew opts : Queue E)) :=
    Runs.foldl_inv_of (P := InStep) (fun _ _ hop hq => hq.apply hop) (openNew_inStep opts) h
  exact hstep.recovered c

/-- alice's first transaction submits a job factory -/
def factoryTxn : Txn Value :=
  ([.newCluster none, .setAttribute (clusterKey 1) "JobMaterializeDigestFile" "\"/spool/1/digest\"",
      .setAttribute (clusterKey 1) "JobMaterializeLimit" "2"].foldl Txn.step
    (Queue.openNew poolOptions, Txn.begin (Queue.openNew poolOptions) "alice@pool")).2

/-- it is committed -/
def factorySubmitted : List (FactoryOp Value) := [.allocate none, .commit factoryTxn 100 none]

/-- its first proc is materialized and removed, and the factory is paused -/
def factoryWorked : List (FactoryOp Value) :=
  factorySubmitted ++ [.materialize 1 0 none 1 1 0 101 none, .act false ⟨1, 0⟩ (aliceRequest .remove) fun _ => smooth,
    .pause 1 1 true]

theorem factoryTxn_registers : factoryTxn.Registers (FactoryOp.apply (Queue.openNew poolOptions) (.allocate none)) := by
  have hkeys : factoryTxn.pending.keys = [clusterKey 1] := by decide +kernel
  have hmem : ∀ k, k ∈ factoryTxn.pending → k = clusterKey 1 := by
    intro k hk
    have hin : k ∈ factoryTxn.pending.keys := hk
    rw [hkeys] at hin
    exact mem_singleton.1 hin
  have hdestroyed : factoryTxn.destroyed = [] := by decide +kernel
  refine ⟨fun k hk => ?_, fun c hc => ?_, fun c hc => ?_, fun _ _ _ _ _ _ _ => rfl⟩
  · rcases hk with hk | hk
    · rw [hmem k hk, clusterKey_proc]
    · rw [hdestroyed] at hk
      cases hk
  · cases hc
  · have hin : clusterKey c ∈ factoryTxn.pending := by
      by_contra hno
      rw [Txn.stagesFactory, KeyMap.lookup_none_of_notMem hno] at hc
      cases hc
    obtain rfl : c = 1 := congrArg JobKey.cluster (hmem _ hin)
    decide

theorem worked_factory_recovered :
    Runs.Meets FactoryOp.apply (fun q op => op.Regular q) (Queue.openNew poolOptions) factoryWorked ∧
      (factoryWorked.foldl FactoryOp.apply (Queue.openNew poolOptions)).factories = [1] ∧
      1 ∈ (factoryWorked.foldl FactoryOp.apply (Queue.openNew poolOptions)).recoverFactories := by
  have hregular : Runs.Meets FactoryOp.apply (fun q op => op.Regular q) (openNew poolOptions) factoryWorked := by
    refine ⟨trivial, fun _ => factoryTxn_registers, trivial, fun _ c _ hk => ?_, trivial, trivial⟩
    exact absurd (congrArg JobKey.proc hk) (by simp)
  have hfactories : (factoryWorked.foldl FactoryOp.apply (openNew poolOptions)).factories =
    [1] := by decide +kernel
  refine ⟨hregular, hfactories, (factories_recovered poolOptions factoryWorked hregular 1).1 ?_⟩
  rw [hfactories]
  exact mem_singleton_self 1

/-- the queue with the factory -/
def factoryQueue : Queue Value := factorySubmitted.foldl FactoryOp.apply (Queue.openNew poolOptions)

/-- alice edits one attribute of the factory -/
def editTxn : Txn Value :=
  ([.setAttribute (clusterKey 1) "JobMaterializeMaxIdle" "5"].foldl Txn.step
    (factoryQueue, Txn.begin factoryQueue "alice@pool")).2

/-- after the edit the set still has the factory, a restart would not find it; after the removal of its cluster ad by an
action neither -/
theorem edit_forgets_factory :
    factoryQueue.factories = [1] ∧ factoryQueue.recoverFactories = [1] ∧
      (Txn.commit factoryQueue editTxn 200 none).1 = none ∧
      (FactoryOp.apply factoryQueue (.commit editTxn 200 none)).factories = [1] ∧
      (FactoryOp.apply factoryQueue (.commit editTxn 200 none)).recoverFactories = [] ∧
      (FactoryOp.apply factoryQueue
          (.act false (clusterKey 1) (aliceRequest .remove) fun _ => smooth)).factories = [1] ∧
      (FactoryOp.apply factoryQueue
          (.act false (clusterKey 1) (aliceRequest .remove) fun _ => smooth)).recoverFactories = [] := by
  decide +kernel

end AccessPoint
