/-
When the cluster ad of a factory is reclaimed (`MaybeCleanupFactoryCluster` of internal/queue/actions.go).

A factory whose procs have all left the queue is reclaimed when it counts as done, and any non-zero
`JobMaterializePaused` counts as done. The engine writes that attribute when the last proc is made, but also when a
digest or items file could not be read, and the owner of the factory may write it too.

- `step_cluster`: what an event makes of the cluster ad.
- `reclaimed_when_finished`: over every history in which the files are read whenever they have to be and the owner
  pauses no unfinished factory, the cluster ad is only deleted when every proc has been made.
- `paused_factory_reclaimed`: after one failed read, or a pause by the owner, it is deleted before the first proc.
-/
import AccessPoint.Factory.ExactlyOnce

namespace AccessPoint

open ClassAdLib

section

variable {E : Type} [ConfigLib] [ClassAdLib E]

namespace Production

/-! ## The cluster ad along a history -/

variable {f : FactorySpec} {s : Production E} {c : ℤ}

/-- what an event makes of the cluster ad: nothing, one more proc, the mark that the last one was made, or an owner's
pause -/
theorem step_cluster {ev : Event E} (h : Inv f c s) (hu : Undisturbed f c s ev) {ad' : Ad E}
    (hl' : (step c s ev).engine.q.coll.lookup (clusterKey c) = some ad') :
    ∃ ad, s.engine.q.coll.lookup (clusterKey c) = some ad ∧
      ((ad' = ad ∧ (step c s ev).engine.made = s.engine.made) ∨
        (∃ d : Digest, f.IsDigest d ∧ (s.engine.made.length : ℤ) < f.bound ∧
          ((step c s ev).engine.made.length : ℤ) = s.engine.made.length + 1 ∧
          ad' = Queue.advancedCluster ad (s.engine.made.length + 1) (d.rowIndex (s.engine.made.length + 1))
            (if f.bound ≤ s.engine.made.length + 1 then pauseNoMoreItems else 0)) ∨
        (s.engine.made.length = f.bound ∧ (step c s ev).engine.made = s.engine.made ∧
          ∀ a, a ≠ .jobMaterializePaused → ad' a = ad a) ∨
        ∃ q, ev = .edit q ∧ (step c s ev).engine.made = s.engine.made) := by
  cases ev with
  | visit =>
    simp only [step] at hl' ⊢
    by_cases hbusy : s.engine.crashed = true ∨ s.visit.isSome = true
    · rw [if_pos hbusy] at hl' ⊢
      exact ⟨ad', hl', .inl ⟨rfl, rfl⟩⟩
    · rw [if_neg hbusy] at hl' ⊢
      unfold begin at hl' ⊢
      cases hfi : s.engine.q.factoryInfo c with
      | none =>
        rw [hfi] at hl'
        exact ⟨ad', hl', .inl ⟨rfl, rfl⟩⟩
      | some fi =>
        rw [hfi] at hl'
        dsimp only at hl' ⊢
        by_cases hp : fi.paused ≠ 0
        · rw [if_pos hp] at hl' ⊢
          exact ⟨ad', cleanup_cluster hl', .inl ⟨rfl, (cleanup_rest s.engine c).1⟩⟩
        · rw [if_neg hp] at hl' ⊢
          obtain ⟨ad, hl, hdf, hif, -⟩ := Queue.factoryInfo_some hfi
          obtain ⟨hd, hi, -⟩ := (h.stored ad hl).1 ad fun _ _ => rfl
          obtain ⟨_, _, hload, -, -, hq, hmade⟩ := FactorySpec.load_ok h.cached hu
            (Option.some.inj (hdf.symm.trans hd)) (hif.trans hi)
          rw [hload] at hl' ⊢
          dsimp only at hl' ⊢
          rw [hq] at hl'
          exact ⟨ad', hl', .inl ⟨rfl, hmade⟩⟩
  | advance =>
    obtain ⟨_, _ | v⟩ := s
    · exact ⟨ad', hl', .inl ⟨rfl, rfl⟩⟩
    obtain ⟨hlim, -, _, hdig, hnext⟩ := h.visiting v rfl
    simp only [step, advance] at hl' hnext ⊢
    by_cases hgo : v.next < v.limit ∧ ¬ (0 ≤ v.maxIdle ∧ v.maxIdle ≤ v.idle)
    · rw [if_pos hgo] at hl' ⊢
      split at hl'
      · exact ⟨ad', hl', .inl ⟨rfl, rfl⟩⟩
      · split at hl'
        · exact ⟨ad', hl', .inl ⟨rfl, rfl⟩⟩
        · rename_i q' log hm
          obtain ⟨cluster, hcl, hlook⟩ := Queue.materializeProc_lookup hm
          rw [hlook, if_pos rfl] at hl'
          refine ⟨cluster, hcl, .inr (.inl ⟨v.digest, hdig, by omega, ?_, ?_⟩)⟩
          · rw [List.length_append, List.length_singleton]
            push_cast
            rfl
          · rw [← hnext, ← hlim]
            exact (Option.some.inj hl').symm
    · rw [if_neg hgo] at hl' ⊢
      by_cases hdone : v.limit ≤ v.next
      · rw [if_pos hdone] at hl' ⊢
        obtain ⟨ad, hl, hsame⟩ := pauseFactory_cluster hl'
        have hbound := h.bounded
        simp only at hbound
        exact ⟨ad, hl, .inr (.inr (.inl ⟨by omega, rfl, hsame⟩))⟩
      · rw [if_neg hdone] at hl' ⊢
        exact ⟨ad', hl', .inl ⟨rfl, rfl⟩⟩
  | cleanup => exact ⟨ad', cleanup_cluster hl', .inl ⟨rfl, (cleanup_rest s.engine c).1⟩⟩
  | edit q =>
    obtain ⟨ad, hl, -⟩ := hu ad' hl'
    exact ⟨ad, hl, .inr (.inr (.inr ⟨q, rfl, rfl⟩))⟩
  | restart => exact ⟨ad', hl', .inl ⟨rfl, rfl⟩⟩

/-! ## Pauses -/

/-- the owner pauses the factory only once it is finished; other changes of the pause leave it unpaused -/
def NotPaused (f : FactorySpec) (c : ℤ) (s : Production E) : Event E → Prop
  | .edit q => ∀ ad ad', s.engine.q.coll.lookup (clusterKey c) = some ad →
      q.coll.lookup (clusterKey c) = some ad' →
      ad' .jobMaterializePaused = ad .jobMaterializePaused ∨ ad'.Unpaused ∨
        intAttr ad .jobMaterializeNextProcId 0 = f.bound
  | _ => True

/-- a count of item rows on the ad is no less than the number of rows -/
def CountsItems (f : FactorySpec) (ad : Ad E) : Prop :=
  ∀ ad' : Ad E, (∀ a ∉ Engine.bookkeeping, ad' a = ad a) →
    0 < intAttr ad' .jobMaterializeItemCount 0 → f.rowCount ≤ intAttr ad' .jobMaterializeItemCount 0

/-- the next row on the ad is not ahead of the row of the next proc -/
def CountsRows (f : FactorySpec) (ad : Ad E) (n : ℤ) : Prop :=
  ∀ ad' : Ad E, (∀ a, a ≠ .jobMaterializePaused → ad' a = ad a) →
    intAttr ad' .jobMaterializeNextRow 0 ≤ n / f.digest.queueNum

/-- the cluster ad is as the engine left it, and paused only when finished -/
structure Unfinished (f : FactorySpec) (c : ℤ) (s : Production E) : Prop where
  items : ∀ ad, s.engine.q.coll.lookup (clusterKey c) = some ad → CountsItems f ad
  rows : ∀ ad, s.engine.q.coll.lookup (clusterKey c) = some ad → CountsRows f ad s.engine.made.length
  paused : ∀ ad, s.engine.q.coll.lookup (clusterKey c) = some ad → ad.Unpaused ∨ s.engine.made.length = f.bound

omit [ConfigLib] in
theorem CountsItems.congr {ad ad' : Ad E} (h : CountsItems f ad)
    (hsame : ∀ a ∉ Engine.bookkeeping, ad' a = ad a) : CountsItems f ad' :=
  fun ad'' h'' => h ad'' fun a ha => (h'' a ha).trans (hsame a ha)

omit [ConfigLib] in
theorem CountsRows.congr {ad ad' : Ad E} {n : ℤ} (h : CountsRows f ad n)
    (hsame : ∀ a, a ≠ .jobMaterializePaused → ad' a = ad a) : CountsRows f ad' n :=
  fun ad'' h'' => h ad'' fun a ha => (h'' a ha).trans (hsame a ha)

omit [ConfigLib] in
theorem countsRows_advanced {d : Digest} (hd : f.IsDigest d) (cluster : Ad E) {n : ℤ} (hn : 0 ≤ n)
    (pa : ℤ) : CountsRows f (Queue.advancedCluster cluster n (d.rowIndex n) pa) n := by
  intro ad' h'
  have hlit : ad' .jobMaterializeNextRow = some (lit (.int (d.rowIndex n))) := by
    rw [h' _ (by decide)]
    by_cases hp : pa = 0 <;> simp [Queue.advancedCluster, hp, Ad.setInt_apply]
  rw [intAttr, Ad.evaluateAttrInt_lit hlit, Option.getD_some, Digest.rowIndex, FactorySpec.isDigest_queueNum hd,
    Int.tdiv_eq_ediv_of_nonneg hn]

/-- **The step.** Every event of an undisturbed history in which no unfinished factory is paused keeps the invariant. -/
theorem step_unfinished {ev : Event E} (hi : Inv f c s)
    (hu : Undisturbed f c s ev) (hp : NotPaused f c s ev) (h : Unfinished f c s) : Unfinished f c (step c s ev) := by
  have hbook : ∀ {ad ad' : Ad E}, (∀ a, a ≠ .jobMaterializePaused → ad' a = ad a) →
      ∀ a ∉ Engine.bookkeeping, ad' a = ad a := by
    intro ad ad' hsame a ha
    refine hsame a fun hpa => ha ?_
    rw [hpa]
    decide
  have hall : ∀ ad', (step c s ev).engine.q.coll.lookup (clusterKey c) = some ad' → CountsItems f ad' ∧
      CountsRows f ad' (step c s ev).engine.made.length ∧
      (ad'.Unpaused ∨ (step c s ev).engine.made.length = f.bound) := by
    intro ad' hl'
    obtain ⟨ad, hl, hcase⟩ := step_cluster hi hu hl'
    have hitems := h.items ad hl
    have hrows := h.rows ad hl
    have hpaused := h.paused ad hl
    rcases hcase with ⟨rfl, hmade⟩ | ⟨d, hd, hlt, hlen, rfl⟩ | ⟨hdone, hmade, hsame⟩ | ⟨q, rfl, hmade⟩
    · rw [hmade]
      exact ⟨hitems, hrows, hpaused⟩
    · refine ⟨hitems.congr fun a ha => ?_, ?_, ?_⟩
      · exact Queue.advancedCluster_apply _ _ _ _ _ (by simpa [Engine.bookkeeping] using ha)
      · rw [hlen]
        exact countsRows_advanced hd _ (by omega) _
      · -- the proc is the last one, or the ad was not paused and stays so
        by_cases hlast : f.bound ≤ s.engine.made.length + 1
        · right
          omega
        · left
          rw [if_neg hlast]
          exact (hpaused.resolve_right (by omega)).advanced _ _
    · rw [hmade]
      exact ⟨hitems.congr (hbook hsame), hrows.congr hsame, .inr hdone⟩
    · rw [hmade]
      obtain ⟨_, hl₀, hsame⟩ := hu ad' hl'
      cases hl.symm.trans hl₀
      refine ⟨hitems.congr (hbook hsame), hrows.congr hsame, ?_⟩
      rcases hp ad ad' hl hl' with hpa | hun | hdone
      · have heq : ad' = ad := by
          refine Ad.ext fun a => ?_
          by_cases ha : a = .jobMaterializePaused
          · rw [ha, hpa]
          · exact hsame a ha
        rw [heq]
        exact hpaused
      · exact .inl hun
      · have hcount := (hi.stored ad hl).2 ad fun _ _ => rfl
        exact .inr (hcount.symm.trans hdone)
  exact ⟨fun ad hl => (hall ad hl).1, fun ad hl => (hall ad hl).2.1, fun ad hl => (hall ad hl).2.2⟩

/-! ## The deletion -/

omit [ConfigLib] in
/-- a cleanup that deletes the cluster ad found the factory done -/
theorem cleanup_deletes {e : Engine E} {ad : Ad E} (hl : e.q.coll.lookup (clusterKey c) = some ad)
    (hdel : (cleanup c e).q.coll.lookup (clusterKey c) = none) :
    ∃ fi, e.q.factoryInfo c = some fi ∧ Queue.factoryDone fi = true := by
  unfold cleanup Queue.maybeCleanupFactoryCluster at hdel
  by_cases hf : e.q.isFactoryCluster c = true
  · rw [if_neg (not_not.2 hf)] at hdel
    cases hfi : e.q.factoryInfo c with
    | none =>
      simp only [hfi] at hdel
      rw [hl] at hdel
      cases hdel
    | some fi =>
      refine ⟨fi, rfl, ?_⟩
      by_contra hnd
      simp only [hfi, if_pos (Or.inr hnd)] at hdel
      rw [hl] at hdel
      cases hdel
  · rw [if_pos hf] at hdel
    simp only at hdel
    rw [hl] at hdel
    cases hdel

omit [ConfigLib] in
theorem pauseFactory_stored {q : Queue E} {c code : ℤ} {written : Bool} {ad : Ad E}
    (hl : q.coll.lookup (clusterKey c) = some ad) :
    (q.pauseFactory c code written).coll.lookup (clusterKey c) ≠ none := by
  unfold Queue.pauseFactory
  rw [Store.get_neg _ (by simp), hl]
  cases written <;> simp [Store.lookup_put, hl]

/-- a visit deletes the cluster ad only through the cleanup -/
theorem visit_deletes {w : Engine.World} {ad : Ad E} (hl : s.engine.q.coll.lookup (clusterKey c) = some ad)
    (hdel : (step c s (.visit w)).engine.q.coll.lookup (clusterKey c) = none) :
    (cleanup c s.engine).q.coll.lookup (clusterKey c) = none := by
  simp only [step] at hdel
  by_cases hbusy : s.engine.crashed = true ∨ s.visit.isSome = true
  · rw [if_pos hbusy, hl] at hdel
    cases hdel
  · rw [if_neg hbusy] at hdel
    unfold begin at hdel
    cases hfi : s.engine.q.factoryInfo c with
    | none =>
      simp only [hfi] at hdel
      rw [hl] at hdel
      cases hdel
    | some fi =>
      simp only [hfi] at hdel
      by_cases hp : fi.paused ≠ 0
      · rw [if_pos hp] at hdel
        exact hdel
      · rw [if_neg hp] at hdel
        have hq := (Engine.loadFactory_q w s.engine c fi).1
        rcases hload : Engine.loadFactory w s.engine c fi with ⟨_ | _, _⟩
        · rw [hload] at hdel hq
          exact absurd hdel (pauseFactory_stored (hq.symm ▸ hl))
        · rw [hload] at hdel hq
          simp only at hdel hq
          rw [hq, hl] at hdel
          cases hdel

/-- a factory that counts as done has made every proc -/
theorem done_finished (hi : Inv f c s) (h : Unfinished f c s)
    {fi : FactoryInfo} (hfi : s.engine.q.factoryInfo c = some fi) (hdone : Queue.factoryDone fi = true) :
    (s.engine.made.length : ℤ) = f.bound := by
  obtain ⟨ad, hl, -, -, hlim, -, hnext, hrow, hcount, hpause, -⟩ := Queue.factoryInfo_some hfi
  obtain ⟨hdesc, hcounts⟩ := hi.stored ad hl
  have hnp : fi.nextProcId = s.engine.made.length := hnext.trans (hcounts ad fun _ _ => rfl)
  have hli : fi.limit = f.limit := hlim.trans (hdesc ad fun _ _ => rfl).2.2.1
  have hbound := hi.bounded
  simp only [Queue.factoryDone, decide_eq_true_eq] at hdone
  rcases hdone with hpa | ⟨hpos, hle⟩ | ⟨hpos, hle, -⟩
  · refine (h.paused ad hl).resolve_left fun hun => hpa ?_
    rw [hpause]
    exact hun ad fun _ _ => rfl
  · have := f.bound_le_limit (hli ▸ hpos)
    omega
  · -- every row was begun and left again
    have hitems := h.items ad hl ad (fun _ _ => rfl) (hcount ▸ hpos)
    have hrows := h.rows ad hl ad fun _ _ => rfl
    rw [← hcount] at hitems
    rw [← hrow] at hrows
    have hn : 0 < f.digest.queueNum := by
      have := f.digest.queueNum_pos
      omega
    have hge : f.rowCount * f.digest.queueNum ≤ s.engine.made.length :=
      (Int.le_ediv_iff_mul_le hn).1 (by omega)
    have htotal : f.total ≤ s.engine.made.length := by
      unfold FactorySpec.total
      rw [mul_comm]
      exact hge
    have := f.bound_le_total
    omega

/-- **Reclaimed when finished.** Over every history in which the files of the factory are read whenever they have to be
and no unfinished factory is paused by its owner: a cleanup, or a visit of the engine, that deletes the cluster ad finds
that `NextProcId` has reached the number of procs the factory is to produce. -/
theorem reclaimed_when_finished (f : FactorySpec) (hlt : f.total < 2 ^ 63) (c : ℤ) (s₀ : Production E)
    (h₀ : Fresh f c s₀) (hu₀ : Unfinished f c s₀) (evs : List (Event E))
    (hevs : Runs.Meets (step c) (fun s ev => Undisturbed f c s ev ∧ NotPaused f c s ev) s₀ evs) :
    let s := evs.foldl (step c) s₀
    ∀ ad, s.engine.q.coll.lookup (clusterKey c) = some ad →
      ∀ ev, (ev = .cleanup ∨ ∃ w, ev = .visit w) → (step c s ev).engine.q.coll.lookup (clusterKey c) = none →
        intAttr ad .jobMaterializeNextProcId 0 = if 0 < f.limit then min f.total f.limit else f.total := by
  intro s ad hl ev hev hdel
  obtain ⟨hi, hun⟩ : Inv f c s ∧ Unfinished f c s :=
    Runs.foldl_inv_of (A := fun s ev => Undisturbed f c s ev ∧ NotPaused f c s ev)
      (P := fun s => Inv f c s ∧ Unfinished f c s)
      (fun s ev ha hp => ⟨step_inv hlt ha.1 hp.1, step_unfinished hp.1 ha.1 ha.2 hp.2⟩) ⟨h₀.inv, hu₀⟩ hevs
  have hclean : (cleanup c s.engine).q.coll.lookup (clusterKey c) = none := by
    rcases hev with rfl | ⟨w, rfl⟩
    · exact hdel
    · exact visit_deletes hl hdel
  obtain ⟨_, hfi, hdone⟩ := cleanup_deletes hl hclean
  rw [(hi.stored ad hl).2 ad fun _ _ => rfl]
  exact done_finished hi hun hfi hdone

end Production

end

/-! ## The factory with item data -/

namespace Production

/-- procs leave the queue -/
def removeProcs (s : Production Value) (procs : List ℤ) : Event Value :=
  .edit { s.engine.q with coll := procs.foldl (fun coll p => coll.delete ⟨1, p⟩) s.engine.q.coll }

/-- the second visit, procs 0 and 1 having left: it makes the last two procs -/
def itemsSecond : List (Event Value) :=
  [.visit (itemsWorld false), .advance (itemsWorld false), .advance (itemsWorld false), .advance (itemsWorld false),
    removeProcs itemsFirst [0, 1],
    .visit (itemsWorld false), .advance (itemsWorld false), .advance (itemsWorld false), .advance (itemsWorld false)]

/-- and they leave, too -/
def itemsDrained : List (Event Value) := itemsSecond ++ [removeProcs (itemsSecond.foldl (step 1) itemsStart) [2, 3]]

theorem removeProcs_cluster (coll : Store Value) {procs : List ℤ} (h : ∀ p ∈ procs, p ≠ -1) :
    (procs.foldl (fun coll p => coll.delete ⟨1, p⟩) coll).lookup (clusterKey 1) = coll.lookup (clusterKey 1) := by
  induction procs generalizing coll with
  | nil => rfl
  | cons p procs ih =>
    rw [List.foldl_cons, ih _ fun p' hp' => h p' (List.mem_cons_of_mem _ hp'), Store.lookup_delete, if_neg]
    intro hk
    exact h p List.mem_cons_self (congrArg JobKey.proc hk).symm

/-- procs that leave disturb nothing -/
theorem removeProcs_ok (f : FactorySpec) (s : Production Value) {procs : List ℤ} (h : ∀ p ∈ procs, p ≠ -1) :
    Undisturbed f 1 s (removeProcs s procs) ∧ NotPaused f 1 s (removeProcs s procs) := by
  constructor
  · intro ad' hl'
    rw [removeProcs_cluster _ h] at hl'
    exact ⟨ad', hl', fun _ _ => rfl⟩
  · intro ad ad' hl hl'
    rw [removeProcs_cluster _ h] at hl'
    cases hl.symm.trans hl'
    exact .inl rfl

theorem itemsStart_unfinished : Unfinished itemsSpec 1 itemsStart := by
  have hall : ∀ ad, itemsFactory.coll.lookup (clusterKey 1) = some ad → ad .jobMaterializeItemCount = none ∧
      ad .jobMaterializeNextRow = none ∧ ad .jobMaterializePaused = none := by
    intro ad hl
    have hattrs : (itemsFactory.coll.lookup (clusterKey 1)).all (fun ad => ad .jobMaterializeItemCount = none &&
        ad .jobMaterializeNextRow = none && ad .jobMaterializePaused = none) = true := by
      decide +kernel
    rw [hl] at hattrs
    simpa [and_assoc] using hattrs
  refine ⟨fun ad hl ad' h' hpos => ?_, fun ad hl ad' h' => ?_, fun ad hl => .inl (.of_none (hall ad hl).2.2)⟩
  · rw [intAttr_none ((h' _ (by decide)).trans (hall ad hl).1)] at hpos
    exact absurd hpos (lt_irrefl 0)
  · rw [intAttr_none ((h' _ (by decide)).trans (hall ad hl).2.1)]
    decide +kernel

theorem itemsDrained_ok : Runs.Meets (step 1)
    (fun s ev => Undisturbed itemsSpec 1 s ev ∧ NotPaused itemsSpec 1 s ev) itemsStart itemsDrained :=
  ⟨⟨.inr (itemsSpec_readable false), trivial⟩, ⟨trivial, trivial⟩, ⟨trivial, trivial⟩, ⟨trivial, trivial⟩,
    removeProcs_ok itemsSpec itemsFirst (by decide), ⟨.inr (itemsSpec_readable false), trivial⟩, ⟨trivial, trivial⟩,
    ⟨trivial, trivial⟩, ⟨trivial, trivial⟩,
      removeProcs_ok itemsSpec (itemsSecond.foldl (step 1) itemsStart) (by decide),
    trivial⟩

/-- all four procs were made, and the next visit deletes the cluster ad -/
theorem reclaimed_when_finished_items :
    (step 1 (itemsDrained.foldl (step 1) itemsStart) (.visit (itemsWorld false))).engine.q.coll.lookup
    (clusterKey 1) = none ∧
      (∃ ad, (itemsDrained.foldl (step 1) itemsStart).engine.q.coll.lookup (clusterKey 1) = some ad ∧
        intAttr ad .jobMaterializeNextProcId 0 = 4) := by
  have hdel : ((step 1 (itemsDrained.foldl (step 1) itemsStart) (.visit (itemsWorld false))).engine.q.coll.lookup
      (clusterKey 1)).isNone = true := by
    decide +kernel
  have hstored : ((itemsDrained.foldl (step 1) itemsStart).engine.q.coll.lookup (clusterKey 1)).isSome = true := by
    decide +kernel
  obtain ⟨ad, hl⟩ := Option.isSome_iff_exists.1 hstored
  have hnone := Option.isNone_iff_eq_none.1 hdel
  have hfour : (if 0 < itemsSpec.limit then min itemsSpec.total itemsSpec.limit else itemsSpec.total) = 4 := by
    decide +kernel
  refine ⟨hnone, ad, hl, ?_⟩
  rw [reclaimed_when_finished itemsSpec (by decide +kernel) 1 itemsStart itemsStart_fresh itemsStart_unfinished
    itemsDrained
    itemsDrained_ok ad hl _ (.inr ⟨_, rfl⟩) hnone, hfour]

/-- the digest file cannot be read -/
def brokenWorld : Engine.World := { itemsWorld false with file := fun _ => .err "input/output error" }

/-- after the first visit the schedd restarts and its one read of the digest fails -/
def brokenRead : Production Value :=
  [Event.visit (itemsWorld false), .advance (itemsWorld false), .advance (itemsWorld false),
    .advance (itemsWorld false), .restart poolOptions, .visit brokenWorld].foldl (step 1) itemsStart

/-- then the two procs leave -/
def brokenDrained : Production Value := step 1 brokenRead (removeProcs brokenRead [0, 1])

/-- alice pauses their factory before the first visit -/
def alicePauses : Production Value :=
  step 1 itemsStart (.edit { itemsFactory with
    coll := match itemsFactory.coll.lookup (clusterKey 1) with
      | none => itemsFactory.coll
      | some ad => itemsFactory.coll.put (clusterKey 1) (ad.setInt .jobMaterializePaused 1) })

/-- **Rows lost.** After one failed read, or a pause by its owner, the next visit deletes the cluster ad of a factory
that has made two, or none, of its four procs. -/
theorem paused_factory_reclaimed :
    ((brokenDrained.engine.q.factoryInfo 1).map (·.nextProcId) = some 2 ∧
        ((step 1 brokenDrained (.visit (itemsWorld false))).engine.q.coll.lookup (clusterKey 1)).isNone = true) ∧
      ((alicePauses.engine.q.factoryInfo 1).map (·.nextProcId) = some 0 ∧
        ((step 1 alicePauses (.visit (itemsWorld false))).engine.q.coll.lookup (clusterKey 1)).isNone = true) ∧
      itemsSpec.bound = 4 := by
  decide +kernel

end Production

end AccessPoint
