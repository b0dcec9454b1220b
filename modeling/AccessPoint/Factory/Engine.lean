/-
The late-materialization engine (internal/factory/engine.go).

A sweep visits every factory cluster: it reads the bookkeeping from the cluster ad, loads the digest and the item rows
(from the cache, or from the files the cluster ad names), and materializes procs until the limit or the idle bound is
reached. Two logs record what the engine did: `opened`, the files it read and for which cluster, and `made`, every proc
it committed with the queue before and after.

The loop runs at most `limit - next` times, so it is a recursion on that number. A negative row index is a run-time
panic of the source; the model stops the sweep there (`crashed`).

- `materializeCluster_made`: every proc a visit commits is a `MaterializeProc` of what the digest makes of its row.
- `clusterAd_stable`: the engine changes nothing of a cluster ad but its bookkeeping.
- `materializeCluster_opened`: the only files a visit reads are those `FactoryInfo` names.
-/
import AccessPoint.Core.Runs
import AccessPoint.Queue.Factory
import AccessPoint.Factory.Digest

namespace AccessPoint

open ClassAdLib

/-- `os.ReadFile` -/
inductive FileResult where
  | ok (content : String)
  | notExist
  | err (msg : String)
deriving DecidableEq, Repr

structure FactoryCache where
  digest : Digest
  rows : List String

/-- one proc the engine committed: the queue and the digest before, the arguments, the queue after -/
structure Made (E : Type) where
  before : Queue E
  digest : Digest
  cluster : ℤ
  proc : ℤ
  rawRow : String
  nextProcId : ℤ
  nextRow : ℤ
  paused : ℤ
  now : ℤ
  after : Queue E

structure Engine (E : Type) where
  q : Queue E
  cache : KeyMap ℤ FactoryCache
  opened : List (ℤ × String)
  made : List (Made E)
  crashed : Bool

variable {E : Type} [ConfigLib]

/-- the override the digest makes for this proc -/
def Made.override [ClassAdLib E] (m : Made E) : Ad E := (m.digest.materialize E m.cluster m.proc m.rawRow).1

/-- `m` is a successful `MaterializeProc` of that override -/
def Made.Genuine [ClassAdLib E] (m : Made E) : Prop :=
  ∃ log, m.before.materializeProc m.cluster m.proc (some m.override) m.nextProcId m.nextRow m.paused m.now none =
    .ok (m.after, log)

namespace Engine

/-- what the world around a sweep does: the file system, the clock, the batch writes and the pause writes -/
structure World where
  file : String → FileResult
  now : ℤ
  updErr : ℤ → Option String
  pauseWritten : Bool

/-- the row of a proc: empty beyond the last one; `none` where the source indexes out of range -/
def rowAt (rows : List String) (row : ℤ) : Option String :=
  if row < rows.length then (if row < 0 then none else rows[row.toNat]?) else some ""

/-- the files read for `fi` when the cache has no entry, in order -/
def factoryFiles (w : World) (fi : FactoryInfo) : List String :=
  match w.file fi.digestFile with
  | .ok text =>
    match parseDigest text with
    | .ok _ => if fi.itemsFile = "" then [fi.digestFile] else [fi.digestFile, fi.itemsFile]
    | .error _ => [fi.digestFile]
  | _ => [fi.digestFile]

/-- the item rows; a file that does not exist has none -/
def loadRows (w : World) (itemsFile : String) : Except String (List String) :=
  if itemsFile = "" then .ok []
  else
    match w.file itemsFile with
    | .ok data => .ok (parseItems data)
    | .notExist => .ok []
    | .err e => .error e

/-- `loadFactory` past the cache -/
def readFactory (w : World) (fi : FactoryInfo) : Except String FactoryCache :=
  match w.file fi.digestFile with
  | .notExist => .error "file does not exist"
  | .err e => .error e
  | .ok text =>
    match parseDigest text with
    | .error e => .error e
    | .ok d =>
      match loadRows w fi.itemsFile with
      | .error e => .error e
      | .ok rows => .ok ⟨d, rows⟩

/-- `loadFactory`: the cached factory, or the one read from the files, which is then cached -/
def loadFactory (w : World) (e : Engine E) (c : ℤ) (fi : FactoryInfo) : Except String FactoryCache × Engine E :=
  match e.cache.lookup c with
  | some fc => (.ok fc, e)
  | none =>
    let e := { e with opened := e.opened ++ (factoryFiles w fi).map fun f => (c, f) }
    match readFactory w fi with
    | .error err => (.error err, e)
    | .ok fc => (.ok fc, { e with cache := e.cache.insert c fc })

variable (w : World) (e : Engine E) (c : ℤ) (fi : FactoryInfo)

theorem loadFactory_q : (loadFactory w e c fi).2.q = e.q ∧ (loadFactory w e c fi).2.made = e.made := by
  unfold loadFactory
  cases e.cache.lookup c with
  | some => exact ⟨rfl, rfl⟩
  | none =>
    dsimp only
    cases readFactory w fi <;> exact ⟨rfl, rfl⟩

/-- without item data there is one implicit row -/
def rowCount (rows : List String) : ℤ := if rows = [] then 1 else rows.length

/-- how many procs the factory may have in all; the product is a 64-bit one -/
def procLimit (fi : FactoryInfo) (fc : FactoryCache) : ℤ :=
  let total := Text.wrap64 (fc.digest.queueNum * rowCount fc.rows)
  if 0 < fi.limit ∧ fi.limit < total then fi.limit else total

omit [ConfigLib] in
theorem rowCount_pos (rows : List String) : 1 ≤ rowCount rows := by
  unfold rowCount
  split_ifs with h
  · exact le_refl 1
  · have := List.length_pos_of_ne_nil h
    omega

omit [ConfigLib] in
theorem total_pos (d : Digest) (rows : List String) : 1 ≤ d.queueNum * rowCount rows := by
  have hn := d.queueNum_pos
  have hr := rowCount_pos rows
  nlinarith

omit [ConfigLib] in
/-- a positive limit cuts the wrapped product -/
theorem procLimit_eq_min (fc : FactoryCache) :
    procLimit fi fc =
      if 0 < fi.limit then min (Text.wrap64 (fc.digest.queueNum * rowCount fc.rows)) fi.limit
      else Text.wrap64 (fc.digest.queueNum * rowCount fc.rows) := by
  unfold procLimit
  dsimp only
  split_ifs <;> omega

variable [ClassAdLib E]

/-- how the materialization loop ended -/
inductive LoopEnd where
  /-- the limit or the idle bound was reached -/
  | finished
  /-- a batch write failed; the sweep of this cluster ends at once -/
  | failed
  | crashed
deriving DecidableEq, Repr

structure LoopState (E : Type) where
  q : Queue E
  digest : Digest
  idle : ℤ
  next : ℤ
  made : List (Made E)
  ended : LoopEnd

/-- the loop of `materializeCluster`, at most `n` more iterations -/
def materializeLoop (w : World) (c limit maxIdle : ℤ) (rows : List String) : ℕ → LoopState E → LoopState E
  | 0, s => s
  | n + 1, s =>
    if s.next < limit ∧ ¬ (0 ≤ maxIdle ∧ maxIdle ≤ s.idle) then
      let proc := s.next
      match rowAt rows (s.digest.rowIndex proc) with
      | none => { s with ended := .crashed }
      | some rawRow =>
        let r := s.digest.materialize E c proc rawRow
        let next := proc + 1
        let nextRow := s.digest.rowIndex next
        let paused := if limit ≤ next then pauseNoMoreItems else 0
        match s.q.materializeProc c proc (some r.1) next nextRow paused w.now (w.updErr proc) with
        | .error _ => { s with digest := r.2, next := next, ended := .failed }
        | .ok (q', _) =>
          materializeLoop w c limit maxIdle rows n
            { q := q', digest := r.2, idle := s.idle + 1, next := next, ended := .finished
              made := s.made ++ [⟨s.q, s.digest, c, proc, rawRow, next, nextRow, paused, w.now, q'⟩] }
    else s

/-- the loop of a sweep from the bookkeeping of `fi` -/
def runLoop (w : World) (q : Queue E) (c : ℤ) (fi : FactoryInfo) (fc : FactoryCache) : LoopState E :=
  let limit := procLimit fi fc
  materializeLoop w c limit fi.maxIdle fc.rows (limit - fi.nextProcId).toNat
    { q := q, digest := fc.digest, idle := fi.idleProcs, next := fi.nextProcId, made := [], ended := .finished }

/-- `materializeCluster` -/
def materializeCluster (w : World) (e : Engine E) (c : ℤ) : Engine E :=
  if e.crashed then e
  else
    match e.q.factoryInfo c with
    | none => { e with cache := e.cache.erase c }
    | some fi =>
      if fi.paused ≠ 0 then
        match e.q.maybeCleanupFactoryCluster c with
        | (true, q') => { e with q := q', cache := e.cache.erase c }
        | (false, _) => e
      else
        match loadFactory w e c fi with
        | (.error _, e) => { e with q := e.q.pauseFactory c pauseNoMoreItems w.pauseWritten }
        | (.ok fc, e) =>
          let s := runLoop w e.q c fi fc
          let e := { e with q := s.q, cache := e.cache.insert c ⟨s.digest, fc.rows⟩, made := e.made ++ s.made }
          match s.ended with
          | .crashed => { e with crashed := true }
          | .failed => e
          | .finished =>
            if procLimit fi fc ≤ s.next then { e with q := e.q.pauseFactory c pauseNoMoreItems w.pauseWritten } else e

/-- `sweep` -/
def sweep (w : World) (e : Engine E) : Engine E := e.q.factories.foldl (materializeCluster w) e

/-! ## What a sweep does -/

/-- a property of the queue that no engine write breaks: it survives materializing a proc, pausing a factory and
reclaiming a cluster ad -/
structure Stable (P : Queue E → Prop) : Prop where
  made : ∀ m : Made E, m.Genuine → P m.before → P m.after
  paused : ∀ q c code written, P q → P (q.pauseFactory c code written)
  cleaned : ∀ q c, P q → P (q.maybeCleanupFactoryCluster c).2

/-- every proc in the log of a loop is genuine and `P` held before it, and `P` holds after the loop -/
theorem materializeLoop_made {P : Queue E → Prop} (hP : Stable P) (w : World) (c limit maxIdle : ℤ) (rows : List String)
    (n : ℕ) (s : LoopState E) (hq : P s.q) (hs : ∀ m ∈ s.made, m.cluster = c ∧ m.Genuine ∧ P m.before) :
    P (materializeLoop w c limit maxIdle rows n s).q ∧
      ∀ m ∈ (materializeLoop w c limit maxIdle rows n s).made, m.cluster = c ∧ m.Genuine ∧ P m.before := by
  induction n generalizing s with
  | zero => exact ⟨hq, hs⟩
  | succ n ih =>
    unfold materializeLoop
    split_ifs with hgo
    · dsimp only
      split
      · exact ⟨hq, hs⟩
      · rename_i rawRow hrow
        split
        · exact ⟨hq, hs⟩
        · rename_i q' log hm
          obtain ⟨_, herr, -, -⟩ := Queue.materializeProc_ok hm
          rw [herr] at hm
          have hgen : Made.Genuine (E := E) ⟨s.q, s.digest, c, s.next, rawRow, s.next + 1,
              s.digest.rowIndex (s.next + 1), if limit ≤ s.next + 1 then pauseNoMoreItems else 0, w.now, q'⟩ :=
                ⟨log, hm⟩
          refine ih _ (hP.made _ hgen hq) fun m hmem => ?_
          rcases List.mem_append.1 hmem with h | h
          · exact hs m h
          · simp only [List.mem_singleton] at h
            subst h
            exact ⟨rfl, hgen, hq⟩
    · exact ⟨hq, hs⟩

/-- **One visit of a cluster.** The log grows by genuine procs, and a stable property holds before each of them and
after the visit. -/
theorem materializeCluster_made {P : Queue E → Prop} (hP : Stable P) (w : World) (e : Engine E) (c : ℤ) (hq : P e.q) :
    P (materializeCluster w e c).q ∧
      ∀ m ∈ (materializeCluster w e c).made, m ∈ e.made ∨ m.Genuine ∧ P m.before := by
  unfold materializeCluster
  split_ifs
  · exact ⟨hq, fun m hm => .inl hm⟩
  · split
    · exact ⟨hq, fun m hm => .inl hm⟩
    · rename_i fi _
      split_ifs with hpaused
      · have hcl := hP.cleaned e.q c hq
        rcases hr : e.q.maybeCleanupFactoryCluster c with ⟨_ | _, _⟩
        · exact ⟨hq, fun m hm => .inl hm⟩
        · rw [hr] at hcl; exact ⟨hcl, fun m hm => .inl hm⟩
      · obtain ⟨hlq, hlm⟩ := loadFactory_q w e c fi
        rcases hl : loadFactory w e c fi with ⟨_ | fc, e'⟩
        · rw [hl] at hlq hlm
          dsimp only at hlq hlm ⊢
          exact ⟨hP.paused _ _ _ _ (by rw [hlq]; exact hq), fun m hm => .inl (hlm ▸ hm)⟩
        · rw [hl] at hlq hlm
          dsimp only at hlq hlm ⊢
          have hloop := materializeLoop_made hP w c (procLimit fi fc) fi.maxIdle fc.rows
            (procLimit fi fc - fi.nextProcId).toNat
            { q := e'.q, digest := fc.digest, idle := fi.idleProcs, next := fi.nextProcId, made := [],
              ended := .finished }
            (by rw [hlq]; exact hq) (by simp)
          have hmade : ∀ m ∈ e'.made ++ (runLoop w e'.q c fi fc).made, m ∈ e.made ∨ m.Genuine ∧ P m.before := by
            intro m hm
            rcases List.mem_append.1 hm with h | h
            · exact .inl (hlm ▸ h)
            · exact .inr (hloop.2 m h).2
          split
          · exact ⟨hloop.1, hmade⟩
          · exact ⟨hloop.1, hmade⟩
          · split_ifs
            · exact ⟨hP.paused _ _ _ _ hloop.1, hmade⟩
            · exact ⟨hloop.1, hmade⟩

/-- the attributes of a cluster ad the engine advances -/
def bookkeeping : List Attr := [.jobMaterializeNextProcId, .jobMaterializeNextRow, .jobMaterializePaused]

/-- the cluster ad of `c`, if there is one, satisfies `R` -/
def ClusterAd (c : ℤ) (R : Ad E → Prop) (q : Queue E) : Prop := ∀ ad, q.coll.lookup (clusterKey c) = some ad → R ad

variable {R : Ad E → Prop}

theorem clusterAd_made {c : ℤ}
    (hR : ∀ ad ad' : Ad E, (∀ a ∉ bookkeeping, ad' a = ad a) → R ad → R ad') {m : Made E} (hm : m.Genuine)
    (h : ClusterAd c R m.before) : ClusterAd c R m.after := by
  obtain ⟨_, hm⟩ := hm
  obtain ⟨cluster, hcl, hlook⟩ := Queue.materializeProc_lookup hm
  intro ad hl
  rw [hlook] at hl
  split_ifs at hl with hk hk'
  · have hc : c = m.cluster := congrArg JobKey.cluster hk
    subst hc
    cases hl
    refine hR cluster _ (fun a ha => ?_) (h cluster hcl)
    exact Queue.advancedCluster_apply _ _ _ _ _ (by simpa [bookkeeping] using ha)
  · -- the proc key is a cluster key only when it is that of the same cluster, which the first case covers
    have hc : c = m.cluster := congrArg JobKey.cluster hk'
    exact absurd (by rw [hc]) hk
  · exact h ad hl

omit [ConfigLib] in
theorem clusterAd_paused {c : ℤ}
    (hR : ∀ ad ad' : Ad E, (∀ a ∉ bookkeeping, ad' a = ad a) → R ad → R ad') {q : Queue E} (h : ClusterAd c R q)
    (c' code : ℤ) (written : Bool) : ClusterAd c R (q.pauseFactory c' code written) := by
  unfold Queue.pauseFactory
  cases hg : q.coll.get (clusterKey c') with
  | none => exact h
  | some cluster =>
    dsimp only
    split_ifs
    · intro ad hl
      simp only [Store.lookup_put] at hl
      split_ifs at hl with hk
      · have hc : c = c' := congrArg JobKey.cluster hk
        subst hc
        rw [Store.get_neg _ (by simp)] at hg
        cases hl
        refine hR cluster _ (fun a ha => ?_) (h cluster hg)
        rw [Ad.setInt_apply, if_neg fun h => ha (by simp [h, bookkeeping])]
      · exact h ad hl
    · exact h

omit [ConfigLib] in
theorem clusterAd_cleaned {c : ℤ} {q : Queue E} (h : ClusterAd c R q) (c' : ℤ) :
    ClusterAd c R (q.maybeCleanupFactoryCluster c').2 := by
  unfold Queue.maybeCleanupFactoryCluster
  by_cases hf : q.isFactoryCluster c' = true
  · rw [if_neg (not_not.2 hf)]
    cases q.factoryInfo c' with
    | none => exact h
    | some =>
      dsimp only
      split_ifs
      · exact h
      · intro ad hl
        simp only [Store.lookup_delete] at hl
        split_ifs at hl
        exact h ad hl
  · rw [if_pos hf]
    exact h

/-- **The engine leaves a cluster ad alone but for its own bookkeeping.** -/
theorem clusterAd_stable
    (hR : ∀ ad ad' : Ad E, (∀ a ∉ bookkeeping, ad' a = ad a) → R ad → R ad') : Stable (ClusterAd c R) where
  made := fun _ hm h => clusterAd_made hR hm h
  paused := fun _ c' code written h => clusterAd_paused hR h c' code written
  cleaned := fun _ c' h => clusterAd_cleaned h c'

/-! ## The files a visit reads -/

omit [ClassAdLib E] in
theorem mem_factoryFiles {w : World} {fi : FactoryInfo} {f : String} (h : f ∈ factoryFiles w fi) :
    f = fi.digestFile ∨ f = fi.itemsFile ∧ f ≠ "" := by
  unfold factoryFiles at h
  split at h
  · split at h
    · split_ifs at h with hi
      · exact .inl (by simpa using h)
      · rcases List.mem_cons.1 h with h | h
        · exact .inl h
        · have hf : f = fi.itemsFile := by simpa using h
          exact .inr ⟨hf, hf ▸ hi⟩
    · exact .inl (by simpa using h)
  · exact .inl (by simpa using h)

omit [ClassAdLib E] in
theorem loadFactory_opened :
    ∀ p ∈ (loadFactory w e c fi).2.opened, p ∈ e.opened ∨ p.1 = c ∧ p.2 ∈ factoryFiles w fi := by
  intro p hp
  unfold loadFactory at hp
  cases hc : e.cache.lookup c with
  | some => rw [hc] at hp; exact .inl hp
  | none =>
    have hmem : p ∈ e.opened ++ (factoryFiles w fi).map fun f => (c, f) := by
      rw [hc] at hp
      cases hr : readFactory w fi <;> rw [hr] at hp <;> exact hp
    rcases List.mem_append.1 hmem with h | h
    · exact .inl h
    · obtain ⟨_, hf, rfl⟩ := List.mem_map.1 h
      exact .inr ⟨rfl, hf⟩

/-- **The files of one visit.** The engine reads only the two files the cluster ad names. -/
theorem materializeCluster_opened :
    ∀ p ∈ (materializeCluster w e c).opened, p ∈ e.opened ∨
      p.1 = c ∧ ∃ fi, e.q.factoryInfo c = some fi ∧ (p.2 = fi.digestFile ∨ p.2 = fi.itemsFile ∧ p.2 ≠ "") := by
  intro p hp
  unfold materializeCluster at hp
  by_cases hcr : e.crashed = true
  · rw [if_pos hcr] at hp; exact .inl hp
  · rw [if_neg hcr] at hp
    cases hfi : e.q.factoryInfo c with
    | none => rw [hfi] at hp; exact .inl hp
    | some fi =>
      rw [hfi] at hp
      by_cases hpa : fi.paused ≠ 0
      · simp only [if_pos hpa] at hp
        rcases hm : e.q.maybeCleanupFactoryCluster c with ⟨_ | _, _⟩ <;> rw [hm] at hp <;> exact .inl hp
      · simp only [if_neg hpa] at hp
        have hload := loadFactory_opened w e c fi p
        -- what follows the load opens nothing
        have hsame : p ∈ (loadFactory w e c fi).2.opened := by
          rcases hl : loadFactory w e c fi with ⟨_ | fc, e'⟩
          · rw [hl] at hp; exact hp
          · rw [hl] at hp
            dsimp only at hp
            cases hend : (runLoop w e'.q c fi fc).ended with
            | crashed | failed => rw [hend] at hp; exact hp
            | finished =>
              rw [hend] at hp
              dsimp only at hp
              split_ifs at hp <;> exact hp
        rcases hload hsame with h | ⟨hc, hf⟩
        · exact .inl h
        · exact .inr ⟨hc, fi, rfl, mem_factoryFiles hf⟩

end Engine

end AccessPoint
