/-
Startup recovery (internal/sched/sched.go, `handleRecover`, `requeueToIdle`, `leaseAlive`).

A restarted schedd scans the queue once. A job left Running goes one of three ways: it has an entry of the registry
already and is passed over, it has a claim and a lease that may still be alive and is re-attached to, or it goes back to
Idle. The scan is a snapshot and the requeues rewrite the queue while it is walked; what keeps the two apart is that
every ad stands under its own ids. The re-attached jobs enter the registry in a second loop.

A requeue deletes the attributes of the run from the job's own ad. What the cluster ad has of them shows through again.

- `recoverLoop_ends`: the runs the loop starts and the ads it rewrites, for every scan.
- `recovery_classifies_iff`: what becomes of every job, and when every Running one is accounted for.
- `requeued_job_keeps_claim`: a job with a claim id on its cluster ad is Idle with it.
-/
import AccessPoint.Sched.OneRun
import AccessPoint.Sched.Undisturbed

namespace AccessPoint

open ClassAdLib List Sched Store

section

variable {E : Type} [ClassAdLib E]

/-! ## The loop -/

namespace Sched

/-- the job was left Running and has no entry -/
def leftRunning (core : Core) (ad : Ad E) : Bool := ad.int0 .jobStatus = statusRunning && ad.ids ∉ core.running

/-- it has a claim, and a lease that may be alive -/
def mayReattach (now : ℤ) (ad : Ad E) : Bool := (ad.evaluateAttrString .claimId).getD "" ≠ "" && leaseAlive ad now

def reattaches (core : Core) (now : ℤ) (ad : Ad E) : Bool := leftRunning core ad && mayReattach now ad

def requeues (core : Core) (now : ℤ) (ad : Ad E) : Bool := leftRunning core ad && !mayReattach now ad

/-- the run of a job that is re-attached to -/
def reattached (cfg : SchedConfig E) (ad : Ad E) : NewRun E :=
  let claimID := (ad.evaluateAttrString .claimId).getD ""
  ⟨ad.ids, ⟨claimID, (ad.evaluateAttrString .remoteHost).getD "", false, false, false, true, []⟩,
    reconnectJob cfg ad.ids claimID ad⟩

/-- the ads of `ads` that are requeued have been rewritten, no other key has -/
structure Requeued (core : Core) (now : ℤ) (ads : List (Ad E)) (s s' : Store E) : Prop where
  idle : ∀ ad ∈ ads, requeues core now ad = true → ∃ t, s'.lookup ad.ids = some (requeuedAd t ad)
  others : ∀ k, (∀ ad ∈ ads, requeues core now ad = true → ad.ids ≠ k) → s'.lookup k = s.lookup k

variable {ads : List (Ad E)} {ad : Ad E}

theorem Requeued.skip {core : Core} {now : ℤ} {s s' : Store E}
    (h : Requeued core now ads s s') (hskip : requeues core now ad = false) : Requeued core now (ad :: ads) s s' := by
  refine ⟨fun ad' hmem hre => ?_, fun k hk => h.others k fun ad' hmem => hk ad' (mem_cons_of_mem ad hmem)⟩
  rcases mem_cons.1 hmem with rfl | hmem
  · rw [hskip] at hre
    cases hre
  · exact h.idle ad' hmem hre

theorem Requeued.cons {core : Core} {now t : ℤ} {s s' : Store E}
    (h : Requeued core now ads (s.put ad.ids (requeuedAd t ad)) s') (hre : requeues core now ad = true)
    (hnew : ad.ids ∉ ads.map Ad.ids) : Requeued core now (ad :: ads) s s' := by
  have hhead : s'.lookup ad.ids = some (requeuedAd t ad) := by
    rw [h.others ad.ids fun ad' hmem _ he => hnew (mem_map.2 ⟨ad', hmem, he⟩), lookup_put, if_pos rfl]
  refine ⟨fun ad' hmem hre' => ?_, fun k hk => ?_⟩
  · rcases mem_cons.1 hmem with rfl | hmem
    · exact ⟨t, hhead⟩
    · exact h.idle ad' hmem hre'
  · have hne : k ≠ ad.ids := fun he => hk ad mem_cons_self hre he.symm
    rw [h.others k fun ad' hmem => hk ad' (mem_cons_of_mem ad hmem), lookup_put, if_neg hne]

open World Prog

variable {m : Queue E × List Event}

theorem requeueToIdle_ends {k : JobKey} (hget : m.1.coll.get k = some ad)
    (hrun : ad.int0 .jobStatus = statusRunning) {Q : Queue E × List Event → Unit → Prop}
    (h : ∀ t, Q ({ m.1 with coll := m.1.coll.put k (requeuedAd t ad) }, m.2) ()) :
    Ends coreExec Q (requeueToIdle k) m := by
  refine ends_bind.2 (jobStatus_ends hget ?_)
  rw [if_neg (not_not.2 hrun)]
  exact ends_bind.2 (clock_ends fun t => ends_bind.2 (modify_ends hget (h t)))

/-- **The loop over a scan.** Each ad stands in the queue under its own ids, and no two have the same. -/
theorem recoverLoop_ends (cfg : SchedConfig E) (core : Core) (now : ℤ) (hids : (ads.map Ad.ids).Nodup)
    (hads : ∀ ad ∈ ads, 0 ≤ ad.ids.proc ∧ m.1.coll.get ad.ids = some ad) :
    Ends coreExec (fun m' r => r.1 = (ads.filter (reattaches core now)).map (reattached cfg) ∧
      Requeued core now ads m.1.coll m'.1.coll) (recoverLoop cfg core now ads) m := by
  induction ads generalizing m with
  | nil => exact ⟨rfl, fun ad hmem => absurd hmem not_mem_nil, fun k _ => rfl⟩
  | cons ad ads ih =>
    obtain ⟨hnew, hids'⟩ := nodup_cons.1 hids
    obtain ⟨hproc, hget⟩ := hads ad mem_cons_self
    have hads' : ∀ ad' ∈ ads, 0 ≤ ad'.ids.proc ∧ m.1.coll.get ad'.ids = some ad' :=
      fun ad' hmem => hads ad' (mem_cons_of_mem ad hmem)
    unfold recoverLoop
    dsimp only
    split_ifs with hskip hback
    · -- not Running, or with an entry
      have hleft : leftRunning core ad = false := by
        rcases hskip with h | h <;> simp [leftRunning, Ad.ids, h]
      refine Ends.mono ?_ (ih hids' hads')
      rintro m' r ⟨hruns, hre⟩
      exact ⟨by simp [reattaches, hleft, hruns], hre.skip (by simp [requeues, hleft])⟩
    · -- back to Idle
      push Not at hskip
      have hleft : leftRunning core ad = true := by simp [leftRunning, Ad.ids, hskip]
      have hmay : mayReattach now ad = false := by
        rcases hback with h | h <;> simp [mayReattach, h]
      refine ends_bind.2 (requeueToIdle_ends hget hskip.1 fun t => ?_)
      have hrest : ∀ ad' ∈ ads, 0 ≤ ad'.ids.proc ∧
          (m.1.coll.put ad.ids (requeuedAd t ad)).get ad'.ids = some ad' := by
        intro ad' hmem
        have hne : ad'.ids ≠ ad.ids := fun he => hnew (mem_map.2 ⟨ad', hmem, he⟩)
        exact ⟨(hads' ad' hmem).1, by rw [get_put_ne _ hproc hne]; exact (hads' ad' hmem).2⟩
      refine Ends.mono ?_ (ih hids' hrest)
      rintro m' r ⟨hruns, hre⟩
      exact ⟨by simp [reattaches, hmay, hruns], hre.cons (by simp [requeues, hleft, hmay]) hnew⟩
    all_goals
      -- re-attached to
      push Not at hskip hback
      have hleft : leftRunning core ad = true := by simp [leftRunning, Ad.ids, hskip]
      have hmay : mayReattach now ad = true := by simp [mayReattach, hback]
      refine ends_bind.2 (Ends.mono ?_ (ih hids' hads'))
      rintro m' r ⟨hruns, hre⟩
      exact ⟨by simp [reattaches, hleft, hmay, hruns, reattached, Ad.ids], hre.skip (by simp [requeues, hmay])⟩

end Sched

/-- the only ad of a scan under the ids of a job is the job's own -/
theorem Store.Keyed.scan_unique {s : Store E} (h : s.Keyed) {k : JobKey} {ad ad' : Ad E}
    (hg : s.get k = some ad) (hmem : ad' ∈ s.scan) (hids : ad'.ids = k) : ad' = ad := by
  obtain ⟨k', hk', hg'⟩ := mem_scan.1 hmem
  have hkk : k' = k := ((h.get hg').ids hk').symm.trans hids
  rw [hkk, hg] at hg'
  exact (Option.some.inj hg').symm

/-! ## The second loop -/

namespace World

omit [ClassAdLib E] in
/-- starting runs touches neither the entries of other jobs nor goroutines that are there -/
theorem startRuns_keeps (rs : List (NewRun E)) (w : World E) {k : JobKey} (hk : ∀ r ∈ rs, r.key ≠ k) :
    (rs.foldl startRun w).core.running.lookup k = w.core.running.lookup k ∧
      ∀ i < w.nextTid, (rs.foldl startRun w).threads.lookup i = w.threads.lookup i := by
  induction rs generalizing w with
  | nil => exact ⟨rfl, fun _ _ => rfl⟩
  | cons r rs ih =>
    obtain ⟨hentry, hthreads⟩ := ih (w.startRun r) fun r' hr' => hk r' (mem_cons_of_mem r hr')
    have hne : k ≠ r.key := fun he => hk r mem_cons_self he.symm
    refine ⟨hentry.trans (AList.lookup_insert_ne hne), fun i hi => ?_⟩
    exact (hthreads i (Nat.lt_succ_of_lt hi)).trans (AList.lookup_insert_ne hi.ne)

omit [ClassAdLib E] in
/-- every run of a list without repeated jobs has its entry and its goroutine -/
theorem startRuns_started {rs : List (NewRun E)} (hnodup : (rs.map (·.key)).Nodup) (w : World E) {r : NewRun E}
    (hr : r ∈ rs) :
    (rs.foldl startRun w).core.running.lookup r.key = some r.info ∧
      ∃ i, (rs.foldl startRun w).threads.lookup i = some ⟨r.key, .run, r.prog⟩ := by
  induction rs generalizing w with
  | nil => exact absurd hr not_mem_nil
  | cons r' rs ih =>
    obtain ⟨hnew, hnodup'⟩ := nodup_cons.1 hnodup
    rcases mem_cons.1 hr with rfl | hr
    · obtain ⟨hentry, hthreads⟩ := startRuns_keeps rs (w.startRun r) (k := r.key)
        fun r' hr' he => hnew (mem_map.2 ⟨r', hr', he⟩)
      refine ⟨hentry.trans (AList.lookup_insert _), w.nextTid, ?_⟩
      exact (hthreads w.nextTid (Nat.lt_succ_self _)).trans (AList.lookup_insert _)
    · exact ih hnodup' (w.startRun r') hr

omit [ClassAdLib E] in
theorem startRuns_gauged {rs : List (NewRun E)} (hnodup : (rs.map (·.key)).Nodup) {w : World E} (hw : w.core.Gauged)
    (hnew : ∀ r ∈ rs, r.key ∉ w.core.running) : (rs.foldl startRun w).core.Gauged := by
  induction rs generalizing w with
  | nil => exact hw
  | cons r rs ih =>
    obtain ⟨hnot, hnodup'⟩ := nodup_cons.1 hnodup
    refine ih hnodup' (hw.add (hnew r mem_cons_self) r.info) fun r' hr' hmem => ?_
    rcases (AList.mem_insert _).1 hmem with he | hmem
    · exact hnot (mem_map.2 ⟨r', hr', he⟩)
    · exact hnew r' (mem_cons_of_mem r hr') hmem

/-! ## Recovery -/

/-- where a job runs -/
def placeOf : List Attr := [.claimId, .startdIpAddr, .lastJobLeaseRenewal, .remoteHost]

/-- a job left Running that the recovery at time `now` has re-attached to -/
def ReattachedTo (cfg : SchedConfig E) (now : ℤ) (k : JobKey) (ad : Ad E) (w' : World E) : Prop :=
  ∃ ri claimID, w'.core.running.lookup k = some ri ∧ ad.evaluateAttrString .claimId = some claimID ∧
    ri.claimID = claimID ∧
    ri.reconnect = true ∧ (∃ i, w'.threads.lookup i = some ⟨k, .run, reconnectJob cfg k claimID ad⟩) ∧
    ∃ dur renewal, ad.evaluateAttrInt .jobLeaseDuration = some dur ∧
      ad.evaluateAttrInt .lastJobLeaseRenewal = some renewal ∧ 0 < dur ∧ now - renewal < dur

/-- a job that is Idle with nothing left of a run -/
def BackToIdle (k : JobKey) (w' : World E) : Prop :=
  ∃ ad', w'.q.coll.get k = some ad' ∧ ad'.int0 .jobStatus = statusIdle ∧ ∀ a ∈ placeOf, ad' a = none

/-- of where a job ran, its cluster ad shows through once it is requeued -/
theorem requeuedAd_chainTo (t : ℤ) (ad parent : Ad E) {a : Attr} (ha : a ∈ placeOf) :
    (requeuedAd t ad).chainTo parent a = parent a := by
  have hnone : requeuedAd t ad a = none := by
    simp only [placeOf, mem_cons, not_mem_nil, or_false] at ha
    rcases ha with rfl | rfl | rfl | rfl <;> rfl
  rw [Ad.chainTo_apply, hnone, Option.none_or]

variable {w' : World E} {ad : Ad E}

theorem backToIdle_iff {k : JobKey} {t : ℤ} (hk : 0 ≤ k.proc) (hl : w'.q.coll.lookup k = some (requeuedAd t ad)) :
    BackToIdle k w' ↔ ∀ cad, w'.q.coll.lookup (clusterKey k.cluster) = some cad → ∀ a ∈ placeOf, cad a = none := by
  have hback := get_of_lookup hl
  rw [parentAd_proc _ hk] at hback
  constructor
  · rintro ⟨ad', hg, -, hnone⟩ cad hcl a ha
    obtain rfl := Option.some.inj (hback.symm.trans hg)
    have hshown := hnone a ha
    rwa [requeuedAd_chainTo t ad _ ha, hcl] at hshown
  · intro hclean
    refine ⟨_, hback, Ad.int0_lit (i := statusIdle) rfl, fun a ha => ?_⟩
    rw [requeuedAd_chainTo t ad _ ha]
    cases hcl : w'.q.coll.lookup (clusterKey k.cluster) with
    | none => rfl
    | some cad => exact hclean cad hcl a ha

theorem leaseAlive_lease {now : ℤ} (h : leaseAlive ad now = true) :
    ∃ dur renewal, ad.evaluateAttrInt .jobLeaseDuration = some dur ∧
      ad.evaluateAttrInt .lastJobLeaseRenewal = some renewal ∧ 0 < dur ∧ now - renewal < dur := by
  unfold leaseAlive at h
  split at h
  · rename_i dur renewal hdur hrenewal
    simp only [Bool.and_eq_true, decide_eq_true_eq] at h
    exact ⟨dur, renewal, hdur, hrenewal, h.1.1, h.2⟩
  · cases h

theorem reattachedTo_of_started {cfg : SchedConfig E} {now : ℤ} {i : ℕ} (hmay : mayReattach now ad = true)
    (hentry : w'.core.running.lookup ad.ids = some (reattached cfg ad).info)
    (hthread : w'.threads.lookup i = some ⟨ad.ids, .run, (reattached cfg ad).prog⟩) :
    ReattachedTo cfg now ad.ids ad w' := by
  simp only [mayReattach, Bool.and_eq_true, decide_eq_true_eq] at hmay
  obtain ⟨claimID, hclaim⟩ : ∃ claimID, ad.evaluateAttrString .claimId = some claimID := by
    cases hc : ad.evaluateAttrString .claimId with
    | none => exact absurd (by rw [hc]; rfl) hmay.1
    | some claimID => exact ⟨claimID, rfl⟩
  have hget : (ad.evaluateAttrString .claimId).getD "" = claimID := by rw [hclaim]; rfl
  refine ⟨(reattached cfg ad).info, claimID, hentry, hclaim, hget, rfl, ⟨i, ?_⟩, leaseAlive_lease hmay.2⟩
  rw [hthread]
  simp only [reattached, hget]

/-- the handler from its event to its end: the store it leaves, and the world in which the second loop starts the runs
-/
theorem recover_finishes (cfg : SchedConfig E) {w : World E} (hb : w.busy = none) {done : Option ℕ} {rest : List Event}
    (he : w.events = .evRecover done :: rest) (hdraining : w.core.draining = false) (hkeyed : w.q.coll.Keyed)
    (ch : Choice)
    {chs : List Choice} (hok : ∀ ch' ∈ chs, ch'.ok = true)
    (hidle : (run cfg w (.take :: .core ch :: chs.map .core)).busy = none) :
    let w' := run cfg w (.take :: .core ch :: chs.map .core)
    let runs := (w.q.coll.scan.filter (reattaches w.core ch.now)).map (reattached cfg)
    Sched.Requeued w.core ch.now w.q.coll.scan w.q.coll w'.q.coll ∧ ∃ w₂ : World E,
      w₂.core = w.core.mapRuns (fun _ ri => ri) ∧ w'.core = (runs.foldl startRun w₂).core ∧
        w'.threads = (runs.foldl startRun w₂).threads := by
  intro w' runs
  let go : ℤ → Go E (Finish E) := fun now => Go.scan.bind fun ads =>
    (recoverLoop cfg w.core now ads).bind fun r => .ret { runs := r.1, close := done.toList, ulog := r.2 }
  have hprog : (handle cfg w.core (.evRecover done)).2 = .call .clock go := if_neg (by simp [hdraining])
  -- the first command reads the clock
  let w₀ : World E := { took cfg w (.evRecover done) rest with busy := some (.call .clock go) }
  have hrun : w' = run cfg (w₀.resume cfg (go ch.now)) (chs.map .core) := by
    have htake : step cfg w .take = w₀ := by rw [take_eq cfg hb he, hprog]; rfl
    show (chs.map Step.core).foldl (step cfg) (step cfg (step cfg w .take) (.core ch)) = _
    rw [htake]
    rfl
  have hends : Prog.Ends coreExec (fun m' fin => fin.runs = runs ∧ fin.vacate = [] ∧ fin.policy = none ∧
      Sched.Requeued w.core ch.now w.q.coll.scan w.q.coll m'.1.coll) (go ch.now) w₀.board := by
    intro ads m' hx
    obtain ⟨rfl, rfl⟩ := coreExec_scan hx
    show Prog.Ends coreExec _ ((recoverLoop cfg w.core ch.now w.q.coll.scan).bind _) w₀.board
    refine Prog.ends_bind.2 (Prog.Ends.mono ?_ (recoverLoop_ends cfg w.core ch.now hkeyed.scan fun ad hmem => ?_))
    · rintro m' r ⟨hruns, hre⟩
      exact ⟨hruns, rfl, rfl, hre⟩
    · obtain ⟨k, hk, hg⟩ := mem_scan.1 hmem
      have hids : ad.ids = k := (hkeyed.get hg).ids hk
      rw [hids]
      exact ⟨hk, hg⟩
  rw [show run cfg w (.take :: .core ch :: chs.map .core) = w' from rfl, hrun] at hidle
  obtain ⟨fin, w₁, ⟨hruns, hvacate, hpolicy, hre⟩, hend, hunmoved⟩ := run_finishes cfg hok hends hidle
  have hq : w'.q = w₁.q := by rw [hrun, hend]; exact (finish_frame cfg w₁ fin).1
  refine ⟨by rw [hq]; exact hre, { w₁ with
    busy := none, closed := fin.close ++ w₁.closed, ulog := w₁.ulog ++ fin.ulog
    core := w₁.core.mapRuns fun k ri => if k ∈ fin.vacate then vacateRun ri else ri }, ?_, ?_, ?_⟩
  · have hcore : w₁.core = w.core := hunmoved.core
    simp only [hvacate, hcore, not_mem_nil, if_false]
  · rw [hrun, hend, ← hruns]
    simp only [finish, hpolicy]
    rfl
  · rw [hrun, hend, ← hruns]
    simp only [finish, hpolicy]
    rfl

/-- **Startup recovery classifies every Running job.** A core that is not draining takes the recovery event and works on
it to its end, its first reading of the clock being `ch.now` and its writes being done; every ad stands under its ids.
Then every job that was Running has the entry it had, or is re-attached to under its claim while its lease may be alive,
or is back to Idle, exactly when no cluster ad under a job that is requeued has attributes of a run; every other ad is
as it was, and the gauge counts the registry. -/
theorem recovery_classifies_iff (cfg : SchedConfig E) (w : World E) (hb : w.busy = none) (done : Option ℕ)
    (rest : List Event)
    (he : w.events = .evRecover done :: rest) (hdraining : w.core.draining = false)
    (hgauge : w.core.gauge = w.core.running.keys.length) (hkeyed : w.q.coll.Keyed) (ch : Choice)
    (chs : List Choice) (hok : ∀ ch' ∈ chs, ch'.ok = true) (w' : World E)
    (hw' : w' = run cfg w (.take :: .core ch :: chs.map .core)) (hidle : w'.busy = none) :
    ((∀ k ad, 0 ≤ k.proc → w.q.coll.get k = some ad → ad.int0 .jobStatus = statusRunning →
        (k ∈ w.core.running ∧ w'.core.running.lookup k = w.core.running.lookup k) ∨
          ReattachedTo cfg ch.now k ad w' ∨ BackToIdle k w') ↔
      ∀ k ad, 0 ≤ k.proc → w.q.coll.get k = some ad → ad.int0 .jobStatus = statusRunning →
        k ∉ w.core.running → Sched.mayReattach ch.now ad = false →
          ∀ cad, w.q.coll.lookup (clusterKey k.cluster) = some cad → ∀ a ∈ placeOf, cad a = none) ∧
      (∀ k ad, 0 ≤ k.proc → w.q.coll.get k = some ad → ad.int0 .jobStatus ≠ statusRunning → w'.q.coll.get k = some ad) ∧
      w'.core.gauge = w'.core.running.keys.length := by
  subst hw'
  obtain ⟨hre, w₂, hcore, hcore', hthreads'⟩ := recover_finishes cfg hb he hdraining hkeyed ch hok hidle
  generalize run cfg w (.take :: .core ch :: chs.map .core) = w' at *
  set runs := (w.q.coll.scan.filter (reattaches w.core ch.now)).map (reattached cfg) with hruns
  have hentry : ∀ k, w₂.core.running.lookup k = w.core.running.lookup k := by
    intro k
    rw [hcore, lookup_mapRuns]
    simp
  have hcluster : ∀ c, w'.q.coll.lookup (clusterKey c) = w.q.coll.lookup (clusterKey c) := by
    intro c
    refine hre.others _ fun ad hmem _ hids => ?_
    obtain ⟨k, hk, hg⟩ := mem_scan.1 hmem
    exact proc_ne_clusterKey hk c (((hkeyed.get hg).ids hk).symm.trans hids)
  have hkeys : ∀ r ∈ runs, ∃ ad ∈ w.q.coll.scan, reattaches w.core ch.now ad = true ∧ ad.ids = r.key := by
    intro r hr
    obtain ⟨ad, hmem, rfl⟩ := mem_map.1 hr
    exact ⟨ad, (mem_filter.1 hmem).1, (mem_filter.1 hmem).2, rfl⟩
  have hnodup : (runs.map (·.key)).Nodup := by
    have hmap : runs.map (·.key) = (w.q.coll.scan.filter (reattaches w.core ch.now)).map Ad.ids := by
      rw [hruns, map_map]
      rfl
    rw [hmap]
    exact hkeyed.scan.sublist (filter_sublist.map _)
  have hnew : ∀ r ∈ runs, r.key ∉ w.core.running := by
    intro r hr
    obtain ⟨ad, -, hre', hids⟩ := hkeys r hr
    simp only [reattaches, leftRunning, Bool.and_eq_true, decide_eq_true_eq] at hre'
    exact hids ▸ hre'.1.2
  refine ⟨forall₅_congr fun k ad hk hg hrun => ?_, fun k ad hk hg hrun => ?_, ?_⟩
  · have hids : ad.ids = k := (hkeyed.get hg).ids hk
    have hmem : ad ∈ w.q.coll.scan := mem_scan.2 ⟨k, hk, hg⟩
    by_cases hbusy : k ∈ w.core.running
    · refine iff_of_true (.inl ⟨hbusy, ?_⟩) fun hfree => absurd hbusy hfree
      rw [hcore', (startRuns_keeps runs w₂ fun r hr hkey => hnew r hr (hkey ▸ hbusy)).1, hentry]
    · have hleft : leftRunning w.core ad = true := by simp [leftRunning, hrun, hids, hbusy]
      cases hmay : mayReattach ch.now ad with
      | true =>
        refine iff_of_true (.inr (.inl ?_)) fun _ hno => (nomatch hno)
        have hr : reattached cfg ad ∈ runs :=
          mem_map_of_mem (mem_filter.2 ⟨hmem, by simp [reattaches, hleft, hmay]⟩)
        obtain ⟨hstarted, i, hthread⟩ := startRuns_started hnodup w₂ hr
        rw [← hids]
        exact reattachedTo_of_started hmay (hcore' ▸ hstarted) (hthreads' ▸ hthread)
      | false =>
        obtain ⟨t, ht⟩ := hre.idle ad hmem (by simp [requeues, hleft, hmay])
        have hiff := backToIdle_iff hk (hids ▸ ht)
        rw [hcluster] at hiff
        constructor
        · intro hcases _ _
          rcases hcases with ⟨hin, -⟩ | ⟨ri, _, hl, -⟩ | hback
          · exact absurd hin hbusy
          · -- the registry has no entry of the job
            rw [hcore', (startRuns_keeps runs w₂ fun r hr hkey => ?_).1, hentry] at hl
            · exact absurd ((KeyMap.mem_iff_lookup _ _).2 ⟨ri, hl⟩) hbusy
            · obtain ⟨ad', hmem', hre', hids'⟩ := hkeys r hr
              rw [hkeyed.scan_unique hg hmem' (hids'.trans hkey)] at hre'
              simp [reattaches, hmay] at hre'
          · exact hiff.1 hback
        · exact fun hclean => .inr (.inr (hiff.2 (hclean hbusy rfl)))
  · refine (get_congr (hre.others k fun ad' hmem hre' hids => ?_) fun _ => hcluster k.cluster).trans hg
    rw [hkeyed.scan_unique hg hmem hids] at hre'
    simp [requeues, leftRunning, hrun] at hre'
  · have hgauged : (runs.foldl startRun w₂).core.Gauged := by
      refine startRuns_gauged hnodup ?_ fun r hr hmem => hnew r hr ?_
      · rw [hcore]
        refine Core.Gauged.mapRuns ?_ _
        simpa [Core.Gauged, KeyMap.count, AList.keys, keys] using hgauge
      · rw [hcore] at hmem
        exact Core.mem_mapRuns.1 hmem
    rw [← hcore'] at hgauged
    simpa [Core.Gauged, KeyMap.count, AList.keys, keys] using hgauged

end World

end

/-! ## A restarted schedd -/

namespace World

/-- the queue a schedd left behind with alice's job Running, its lease renewed at 300 -/
def leftBehind (q : Queue Value) : Queue Value := (run poolSched (start q) started).q

/-- a schedd that starts over `q` and recovers at time `now` -/
def restarted (q : Queue Value) (now : ℤ) : World Value :=
  run poolSched (start q) (.recover :: .take :: .core { smooth with now := now } :: (List.replicate 8 smooth).map .core)

/-- at 400 the lease may be alive -/
theorem running_job_reattached :
    ∃ ad, (leftBehind aliceQueue).coll.get ⟨1, 0⟩ = some ad ∧ ad.int0 .jobStatus = statusRunning ∧
        (ReattachedTo poolSched 400 ⟨1, 0⟩ ad (restarted (leftBehind aliceQueue) 400) ∨
          BackToIdle ⟨1, 0⟩ (restarted (leftBehind aliceQueue) 400)) := by
  have hget : ((leftBehind aliceQueue).coll.get ⟨1, 0⟩).any (fun ad => ad.int0 .jobStatus = statusRunning) = true := by
    decide +kernel
  obtain ⟨ad, hget, hrun⟩ := (Option.any_eq_true _ _).1 hget
  have hkeyed : (leftBehind aliceQueue).coll.Keyed := by
    have hentries : ∀ e ∈ (leftBehind aliceQueue).coll.entries, 0 ≤ e.1.proc →
        e.2 .clusterId = some (lit (.int e.1.cluster)) ∧ e.2 .procId = some (lit (.int e.1.proc)) := by decide +kernel
    exact fun k own hl => hentries ⟨k, own⟩ (AList.mem_lookup_iff.1 hl)
  have hclusters : ∀ c cad, (leftBehind aliceQueue).coll.lookup (clusterKey c) = some cad →
    ∀ a ∈ placeOf, cad a = none := by
    have hentries : ∀ e ∈ (leftBehind aliceQueue).coll.entries, e.1.proc = -1 →
      ∀ a ∈ placeOf, (e.2 a).isNone = true := by
      decide +kernel
    exact fun c cad hl a ha =>
      Option.isNone_iff_eq_none.1 (hentries ⟨clusterKey c, cad⟩ (AList.mem_lookup_iff.1 hl) rfl a ha)
  have hall := (recovery_classifies_iff poolSched (run poolSched (start (leftBehind aliceQueue)) [.recover]) rfl
    (some 1) [] rfl rfl rfl hkeyed { smooth with now := 400 } (replicate 8 smooth) (by decide)
    (restarted (leftBehind aliceQueue) 400) rfl (Option.isNone_iff_eq_none.1 (by decide +kernel))).1.2
      (fun k _ _ _ _ _ _ => hclusters k.cluster) ⟨1, 0⟩ ad (by decide) hget (of_decide_eq_true hrun)
  refine ⟨ad, hget, of_decide_eq_true hrun, ?_⟩
  rcases hall with ⟨hbusy, -⟩ | hrest
  · exact absurd hbusy (by decide)
  · exact hrest

/-- alice submits a job with a claim id of their own on the cluster ad -/
def claimOnCluster : Queue Value :=
  (Sys.run (Sys.init poolOptions) [.begin 0 "alice@pool", .request 0 (.newCluster none), .request 0 (.newProc 1),
    .request 0 (.setAttribute (clusterKey 1) "ClaimId" "\"stale\""), .commit 0 100 none]).q

/-- **A requeued job keeps a claim.** Its lease has run out by 9000; the requeue deletes the claim id of the job's own
ad, and the one on the cluster ad shows through. -/
theorem requeued_job_keeps_claim :
    let w := restarted (leftBehind claimOnCluster) 9000
    ((leftBehind claimOnCluster).coll.get ⟨1, 0⟩).map (fun ad => ad .jobStatus) = some (some (.int statusRunning)) ∧
      w.busy.isNone = true ∧ w.core.running.keys = [] ∧
      (w.q.coll.get ⟨1, 0⟩).map (fun ad => (ad .jobStatus, ad .claimId)) =
        some (some (.int statusIdle), some (.str "stale")) := by
  decide +kernel

end World

end AccessPoint
