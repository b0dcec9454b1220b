/-
One factory cluster over whole histories: sweeps, failed writes, edits of the queue by everyone else, crashes and
restarts.

The engine's visit of a cluster is not one step here: procs start, exit and are removed between two of its writes, and
the schedd may stop there. `Production.step` begins a visit (`visit`), performs one turn of the loop (`advance`),
replaces the queue by whatever the rest of the schedd made of it (`edit`) or restarts.

- `visit_run`: a visit without interruption is `materializeCluster`.
- `Inv`, `step_inv`: the bookkeeping on the cluster ad counts the procs committed so far, wherever the engine is
  interrupted, and each of them was made from the row and the step its number stands for.
-/
import AccessPoint.Factory.Engine
import AccessPoint.Queue.Restart

namespace AccessPoint

open ClassAdLib Engine List

/-! ## Factories -/

/-- what a factory was submitted with: the files its cluster ad names and what is in them, the limit and the idle bound
-/
structure FactorySpec where
  digestFile : String
  itemsFile : String
  limit : ℤ
  maxIdle : ℤ
  digest : Digest
  rows : List String

namespace FactorySpec

def rowCount (f : FactorySpec) : ℤ := Engine.rowCount f.rows

def total (f : FactorySpec) : ℤ := f.digest.queueNum * f.rowCount

/-- the number of procs the factory is to produce -/
def bound (f : FactorySpec) : ℤ := if 0 < f.limit then min f.total f.limit else f.total

/-- the row of item data with this number, empty when there is none -/
def row (f : FactorySpec) (i : ℤ) : String := f.rows.getD i.toNat ""

/-- a digest after any number of materializations: only its live variables differ -/
def IsDigest (f : FactorySpec) (d : Digest) : Prop := d = { f.digest with cfg := d.cfg }

theorem total_pos (f : FactorySpec) : 1 ≤ f.total := Engine.total_pos f.digest f.rows

theorem bound_le_total (f : FactorySpec) : f.bound ≤ f.total := by
  unfold bound
  split_ifs
  · exact min_le_left _ _
  · exact le_refl _

theorem bound_le_limit (f : FactorySpec) (h : 0 < f.limit) : f.bound ≤ f.limit := by
  rw [bound, if_pos h]
  exact min_le_right _ _

theorem bound_nonneg (f : FactorySpec) : 0 ≤ f.bound := by
  have ht := f.total_pos
  unfold bound
  split_ifs with h
  · exact le_min (by omega) h.le
  · omega

variable {f : FactorySpec}

theorem isDigest_queueNum {d : Digest} (h : f.IsDigest d) : d.queueNum = f.digest.queueNum := by
  rw [h]

/-- the limit a visit computes is the bound -/
theorem procLimit_eq (hlt : f.total < 2 ^ 63) {fi : FactoryInfo} {fc : FactoryCache}
    (hl : fi.limit = f.limit) (hr : fc.rows = f.rows) (hd : f.IsDigest fc.digest) :
    Engine.procLimit fi fc = f.bound := by
  have hpos := f.total_pos
  have htotal : Text.wrap64 (fc.digest.queueNum * Engine.rowCount fc.rows) = f.total := by
    rw [hr, isDigest_queueNum hd]
    exact Text.wrap64_eq (n := f.total) (by omega) hlt
  rw [procLimit_eq_min, htotal, hl]
  rfl

theorem rowAt_eq (f : FactorySpec) {i : ℤ} (hi : 0 ≤ i) : Engine.rowAt f.rows i = some (f.row i) := by
  unfold rowAt row
  split_ifs with h1 h2
  · omega
  · rw [getD_eq_getElem?_getD, getElem?_eq_getElem (by omega)]
    rfl
  · rw [getD_eq_getElem?_getD, getElem?_eq_none (by omega)]
    rfl

/-- the row and the step of a proc within the bound -/
theorem row_step {d : Digest} (hd : f.IsDigest d) {p : ℤ} (h0 : 0 ≤ p) (hp : p < f.bound) :
    d.rowIndex p = p / f.digest.queueNum ∧ (0 ≤ p / f.digest.queueNum ∧ p / f.digest.queueNum < f.rowCount) ∧
      d.step p = p % f.digest.queueNum := by
  have hn : 0 < f.digest.queueNum := by
    have := f.digest.queueNum_pos
    omega
  have htotal : p < f.rowCount * f.digest.queueNum := by
    rw [mul_comm]
    exact lt_of_lt_of_le hp f.bound_le_total
  refine ⟨?_, ⟨Int.ediv_nonneg h0 hn.le, Int.ediv_lt_of_lt_mul hn htotal⟩, ?_⟩
  · rw [Digest.rowIndex, isDigest_queueNum hd, Int.tdiv_eq_ediv_of_nonneg h0]
  · rw [Digest.step, isDigest_queueNum hd, Int.tmod_eq_emod_of_nonneg h0]

end FactorySpec

section

variable {E : Type} [ConfigLib] [ClassAdLib E]

/-! ## The machine -/

/-- the local variables of `materializeCluster` in its loop -/
structure Visit where
  limit : ℤ
  maxIdle : ℤ
  rows : List String
  digest : Digest
  idle : ℤ
  next : ℤ

/-- the engine and, while it is in the loop of this cluster, where it is -/
structure Production (E : Type) where
  engine : Engine E
  visit : Option Visit

namespace Production

inductive Event (E : Type) where
  /-- `materializeCluster` up to its loop -/
  | visit (w : Engine.World)
  /-- the test of the loop and its body, or the end of the visit -/
  | advance (w : Engine.World)
  /-- `MaybeCleanupFactoryCluster` -/
  | cleanup
  /-- what the rest of the schedd makes of the queue: clients, the scheduler core, the engine in other clusters -/
  | edit (q : Queue E)
  | restart (opts : Options)

def cleanup (c : ℤ) (e : Engine E) : Engine E :=
  match e.q.maybeCleanupFactoryCluster c with
  | (true, q') => { e with q := q', cache := e.cache.erase c }
  | (false, _) => e

def begin (c : ℤ) (w : Engine.World) (e : Engine E) : Production E :=
  match e.q.factoryInfo c with
  | none => ⟨{ e with cache := e.cache.erase c }, none⟩
  | some fi =>
    if fi.paused ≠ 0 then ⟨cleanup c e, none⟩
    else
      match Engine.loadFactory w e c fi with
      | (.error _, e) => ⟨{ e with q := e.q.pauseFactory c pauseNoMoreItems w.pauseWritten }, none⟩
      | (.ok fc, e) =>
        ⟨{ e with cache := e.cache.insert c fc },
          some ⟨Engine.procLimit fi fc, fi.maxIdle, fc.rows, fc.digest, fi.idleProcs, fi.nextProcId⟩⟩

/-- one turn of the loop; the cached digest is the one the loop works on -/
def advance (c : ℤ) (w : Engine.World) (e : Engine E) (v : Visit) : Production E :=
  if v.next < v.limit ∧ ¬ (0 ≤ v.maxIdle ∧ v.maxIdle ≤ v.idle) then
    match Engine.rowAt v.rows (v.digest.rowIndex v.next) with
    | none => ⟨{ e with crashed := true }, none⟩
    | some rawRow =>
      let r := v.digest.materialize E c v.next rawRow
      let nextRow := v.digest.rowIndex (v.next + 1)
      let paused := if v.limit ≤ v.next + 1 then pauseNoMoreItems else 0
      let cache := e.cache.insert c ⟨r.2, v.rows⟩
      match e.q.materializeProc c v.next (some r.1) (v.next + 1) nextRow paused w.now (w.updErr v.next) with
      | .error _ => ⟨{ e with cache := cache }, none⟩
      | .ok (q', _) =>
        ⟨{ e with
            q := q', cache := cache
            made := e.made ++ [⟨e.q, v.digest, c, v.next, rawRow, v.next + 1, nextRow, paused, w.now, q'⟩] },
          some { v with digest := r.2, idle := v.idle + 1, next := v.next + 1 }⟩
  else ⟨if v.limit ≤ v.next then { e with q := e.q.pauseFactory c pauseNoMoreItems w.pauseWritten } else e, none⟩

def step (c : ℤ) (s : Production E) : Event E → Production E
  | .visit w => if s.engine.crashed ∨ s.visit.isSome then s else begin c w s.engine
  | .advance w =>
    match s.visit with
    | none => s
    | some v => advance c w s.engine v
  | .cleanup => { s with engine := cleanup c s.engine }
  | .edit q => { s with engine := { s.engine with q := q } }
  | .restart opts =>
    let q := s.engine.q
    ⟨{ s.engine with q := Queue.openOn opts q.coll q.counter q.hist, cache := ∅, crashed := false }, none⟩

/-! ## A visit without interruption -/

/-- what `materializeCluster` does after its loop -/
def finish (c : ℤ) (w : Engine.World) (e : Engine E) (limit : ℤ) (rows : List String) (l : Engine.LoopState E) :
    Engine E :=
  let e := { e with q := l.q, cache := e.cache.insert c ⟨l.digest, rows⟩, made := e.made ++ l.made }
  match l.ended with
  | .crashed => { e with crashed := true }
  | .failed => e
  | .finished => if limit ≤ l.next then { e with q := e.q.pauseFactory c pauseNoMoreItems w.pauseWritten } else e

/-- the visit at a point of the loop -/
def atLoop (c : ℤ) (e : Engine E) (v : Visit) (l : Engine.LoopState E) : Production E :=
  ⟨{ e with q := l.q, cache := e.cache.insert c ⟨l.digest, v.rows⟩, made := e.made ++ l.made },
    some { v with digest := l.digest, idle := l.idle, next := l.next }⟩

/-- the loop is as many turns as it has iterations, and one that ends it -/
theorem loop_run (c : ℤ) (w : Engine.World) (e : Engine E) (v : Visit) (n : ℕ) (l : Engine.LoopState E)
    (hn : (v.limit - l.next).toNat = n) (hl : l.ended = .finished) :
    (List.replicate (n + 1) (Event.advance w)).foldl (step c) (atLoop c e v l) =
      ⟨finish c w e v.limit v.rows (Engine.materializeLoop w c v.limit v.maxIdle v.rows n l), none⟩ := by
  have hrest : ∀ (e : Engine E) m, (replicate m (Event.advance w)).foldl (step c) ⟨e, none⟩ = ⟨e, none⟩ := by
    intro e m
    induction m with
    | zero => rfl
    | succ m ih => rw [replicate_succ, foldl_cons]; exact ih
  induction n generalizing l with
  | zero =>
    have hge : ¬ l.next < v.limit := by omega
    have hle : v.limit ≤ l.next := by omega
    simp [atLoop, step, advance, materializeLoop, finish, hl, hge, hle]
  | succ n ih =>
    rw [replicate_succ, foldl_cons]
    unfold materializeLoop
    by_cases hgo : l.next < v.limit ∧ ¬ (0 ≤ v.maxIdle ∧ v.maxIdle ≤ l.idle)
    · rw [if_pos hgo]
      have hstep : step c (atLoop c e v l) (.advance w) = advance c w (atLoop c e v l).engine
          { v with digest := l.digest, idle := l.idle, next := l.next } := rfl
      rw [hstep]
      unfold advance
      rw [if_pos hgo]
      dsimp only
      cases hrow : rowAt v.rows (l.digest.rowIndex l.next) with
      | none =>
        dsimp only
        rw [hrest]
        rfl
      | some rawRow =>
        dsimp only
        have hq : (atLoop c e v l).engine.q = l.q := rfl
        rw [hq]
        rcases l.q.materializeProc c l.next _ (l.next + 1) _ _ w.now (w.updErr l.next) with err | ⟨q', log⟩
        · dsimp only
          rw [hrest]
          simp [atLoop, finish]
        · dsimp only
          -- the turn leads to the loop state of the recursive call
          have hturn : ∀ m : Made E,
              (⟨{ (atLoop c e v l).engine with
                    q := q'
                    cache := (atLoop c e v l).engine.cache.insert c
                      ⟨(l.digest.materialize E c l.next rawRow).2, v.rows⟩
                    made := (atLoop c e v l).engine.made ++ [m] },
                  some { v with digest := (l.digest.materialize E c l.next rawRow).2, idle := l.idle + 1,
                                next := l.next + 1 }⟩ : Production E) =
                atLoop c e v ⟨q', (l.digest.materialize E c l.next rawRow).2, l.idle + 1, l.next + 1,
                  l.made ++ [m], .finished⟩ := by
            intro m
            simp [atLoop]
          rw [hturn]
          exact ih _ (by simp only; omega) rfl
    · rw [if_neg hgo]
      have hend : step c (atLoop c e v l) (.advance w) = ⟨finish c w e v.limit v.rows l, none⟩ := by
        simp only [step, atLoop, advance, if_neg hgo, finish, hl]
      rw [hend, hrest]

/-- **A visit without interruption is `materializeCluster`.** -/
theorem visit_run (c : ℤ) (w : Engine.World) (e : Engine E) :
    ∃ n, (Event.visit w :: List.replicate n (Event.advance w)).foldl (step c) ⟨e, none⟩ =
      ⟨Engine.materializeCluster w e c, none⟩ := by
  have hend : ∀ e' : Engine E, step c ⟨e, none⟩ (.visit w) = ⟨e', none⟩ → materializeCluster w e c = e' →
      ∃ n, (Event.visit w :: replicate n (Event.advance w)).foldl (step c) ⟨e, none⟩ =
        ⟨materializeCluster w e c, none⟩ := by
    intro e' hstep hm
    exact ⟨0, by rw [hm]; exact hstep⟩
  by_cases hcr : e.crashed = true
  · exact hend e (by simp [step, hcr]) (by simp [materializeCluster, hcr])
  · have hbegin : step c ⟨e, none⟩ (.visit w) = begin c w e := by simp [step, hcr]
    cases hfi : e.q.factoryInfo c with
    | none =>
      exact hend { e with cache := e.cache.erase c } (by simp [hbegin, begin, hfi])
        (by simp [materializeCluster, hcr, hfi])
    | some fi =>
      by_cases hp : fi.paused ≠ 0
      · refine hend (cleanup c e) (by simp [hbegin, begin, hfi, hp]) ?_
        simp only [materializeCluster, hcr, hfi, if_pos hp, cleanup]
        rfl
      · rcases hload : loadFactory w e c fi with ⟨_ | fc, e'⟩
        · exact hend { e' with q := e'.q.pauseFactory c pauseNoMoreItems w.pauseWritten }
            (by rw [hbegin]; simp only [begin, hfi, if_neg hp, hload])
            (by simp only [materializeCluster, hcr, hfi, if_neg hp, hload]; rfl)
        · have hloop := loop_run c w e' ⟨procLimit fi fc, fi.maxIdle, fc.rows, fc.digest, fi.idleProcs,
            fi.nextProcId⟩ (procLimit fi fc - fi.nextProcId).toNat
            ⟨e'.q, fc.digest, fi.idleProcs, fi.nextProcId, [], .finished⟩ rfl rfl
          refine ⟨(procLimit fi fc - fi.nextProcId).toNat + 1, ?_⟩
          rw [foldl_cons, hbegin]
          have hstart : begin c w e = atLoop c e' ⟨procLimit fi fc, fi.maxIdle, fc.rows, fc.digest, fi.idleProcs,
              fi.nextProcId⟩ ⟨e'.q, fc.digest, fi.idleProcs, fi.nextProcId, [], .finished⟩ := by
            simp only [begin, hfi, if_neg hp, hload, atLoop, append_nil]
          rw [hstart, hloop]
          simp only [materializeCluster, hcr, hfi, if_neg hp, hload]
          rfl

/-! ## The factory behind a cluster ad -/

end Production

namespace FactorySpec

/-- the two files can be read and hold the digest and the rows -/
def Readable (f : FactorySpec) (w : Engine.World) : Prop :=
  ∃ text, w.file f.digestFile = .ok text ∧ parseDigest text = .ok f.digest ∧ Engine.loadRows w f.itemsFile = .ok f.rows

/-- the ad describes this factory, whatever its bookkeeping says -/
def Describes (f : FactorySpec) (ad : Ad E) : Prop :=
  ∀ ad' : Ad E, (∀ a ∉ Engine.bookkeeping, ad' a = ad a) →
    ad'.evaluateAttrString .jobMaterializeDigestFile = some f.digestFile ∧
      (ad'.evaluateAttrString .jobMaterializeItemsFile).getD "" = f.itemsFile ∧
      intAttr ad' .jobMaterializeLimit (-1) = f.limit ∧ intAttr ad' .jobMaterializeMaxIdle (-1) = f.maxIdle

/-- the proc `m` is the one its number stands for: made of row `p / N`, with step `p % N` -/
structure Expands (f : FactorySpec) (c : ℤ) (m : Made E) : Prop where
  cluster : m.cluster = c
  genuine : m.Genuine
  digest : f.IsDigest m.digest
  rowIndex : m.digest.rowIndex m.proc = m.proc / f.digest.queueNum
  inRange : 0 ≤ m.proc / f.digest.queueNum ∧ m.proc / f.digest.queueNum < f.rowCount
  rawRow : m.rawRow = f.row (m.proc / f.digest.queueNum)
  step : m.digest.step m.proc = m.proc % f.digest.queueNum

theorem isDigest_materialize {f : FactorySpec} {d : Digest} (h : f.IsDigest d) (c p : ℤ) (row : String) :
    f.IsDigest (d.materialize E c p row).2 := by
  have heq : (d.materialize E c p row).2 = { d with cfg := d.withVars E c p row } := rfl
  unfold IsDigest at h ⊢
  rw [heq, h]

omit [ConfigLib] in
theorem Describes.congr {f : FactorySpec} {ad ad' : Ad E} (h : f.Describes ad)
    (hsame : ∀ a ∉ Engine.bookkeeping, ad' a = ad a) : f.Describes ad' :=
  fun ad'' h'' => h ad'' fun a ha => (h'' a ha).trans (hsame a ha)

omit [ClassAdLib E] in
/-- a visit that has to load the factory gets the one it was submitted with -/
theorem load_ok {f : FactorySpec} {w : Engine.World} {e : Engine E} {c : ℤ} {fi : FactoryInfo}
    (hcached : ∀ fc, e.cache.lookup c = some fc → fc.rows = f.rows ∧ f.IsDigest fc.digest)
    (hread : (e.cache.lookup c).isSome ∨ f.Readable w) (hd : fi.digestFile = f.digestFile)
    (hi : fi.itemsFile = f.itemsFile) :
    ∃ fc e', Engine.loadFactory w e c fi = (.ok fc, e') ∧ fc.rows = f.rows ∧ f.IsDigest fc.digest ∧ e'.q = e.q ∧
      e'.made = e.made := by
  have hq := loadFactory_q w e c fi
  cases hc : e.cache.lookup c with
  | some fc => exact ⟨fc, e, by simp [loadFactory, hc], (hcached fc hc).1, (hcached fc hc).2, rfl, rfl⟩
  | none =>
    obtain ⟨_, hfile, hparse, hrows⟩ := hread.resolve_left (by simp [hc])
    have hr : readFactory w fi = .ok ⟨f.digest, f.rows⟩ := by
      simp [readFactory, hd, hi, hfile, hparse, hrows]
    rcases hload : loadFactory w e c fi with ⟨_ | fc, e'⟩
    · simp [loadFactory, hc, hr] at hload
    · rw [hload] at hq
      have hfc : fc = ⟨f.digest, f.rows⟩ := by
        simp only [loadFactory, hc, hr, Prod.mk.injEq, Except.ok.injEq] at hload
        exact hload.1.symm
      subst hfc
      exact ⟨_, e', rfl, rfl, rfl, hq.1, hq.2⟩

end FactorySpec

namespace Production

/-- the ad says that `n` procs were made, whatever else its bookkeeping says -/
def Counts (ad : Ad E) (n : ℤ) : Prop :=
  ∀ ad' : Ad E, (∀ a ∉ [Attr.jobMaterializeNextRow, .jobMaterializePaused], ad' a = ad a) →
    intAttr ad' .jobMaterializeNextProcId 0 = n

/-- the assumptions of a history: a visit that has to load the factory finds its files as they were, and nobody but the
engine changes the cluster ad, except for pausing the factory or removing it -/
def Undisturbed (f : FactorySpec) (c : ℤ) (s : Production E) : Event E → Prop
  | .visit w => (s.engine.cache.lookup c).isSome ∨ f.Readable w
  | .edit q => ∀ ad', q.coll.lookup (clusterKey c) = some ad' →
      ∃ ad, s.engine.q.coll.lookup (clusterKey c) = some ad ∧ ∀ a, a ≠ .jobMaterializePaused → ad' a = ad a
  | _ => True

structure Inv (f : FactorySpec) (c : ℤ) (s : Production E) : Prop where
  stored : ∀ ad, s.engine.q.coll.lookup (clusterKey c) = some ad → f.Describes ad ∧ Counts ad s.engine.made.length
  procs : s.engine.made.map (·.proc) = (List.range s.engine.made.length).map Int.ofNat
  made : ∀ m ∈ s.engine.made, f.Expands c m
  bounded : (s.engine.made.length : ℤ) ≤ f.bound
  cached : ∀ fc, s.engine.cache.lookup c = some fc → fc.rows = f.rows ∧ f.IsDigest fc.digest
  visiting : ∀ v, s.visit = some v →
    v.limit = f.bound ∧ v.maxIdle = f.maxIdle ∧ v.rows = f.rows ∧ f.IsDigest v.digest ∧ v.next = s.engine.made.length

/-- a factory as it is submitted -/
structure Fresh (f : FactorySpec) (c : ℤ) (s : Production E) : Prop where
  stored : ∀ ad, s.engine.q.coll.lookup (clusterKey c) = some ad → f.Describes ad ∧ Counts ad 0
  made : s.engine.made = []
  cache : s.engine.cache.lookup c = none
  visit : s.visit = none

variable {s : Production E}

theorem Fresh.inv {f : FactorySpec} {c : ℤ} (h : Fresh f c s) : Inv f c s where
  stored := fun ad hl => by rw [h.made]; exact h.stored ad hl
  procs := by rw [h.made]; rfl
  made := fun m hm => by rw [h.made] at hm; cases hm
  bounded := by rw [h.made]; exact f.bound_nonneg
  cached := fun fc hc => by rw [h.cache] at hc; cases hc
  visiting := fun v hv => by rw [h.visit] at hv; cases hv

/-! ### The cluster ad after each kind of write -/

omit [ConfigLib] in
theorem Counts.congr {ad ad' : Ad E} {n : ℤ} (h : Counts ad n) (hsame : ∀ a, a ≠ .jobMaterializePaused → ad' a = ad a) :
    Counts ad' n := by
  intro ad'' h''
  refine h ad'' fun a ha => (h'' a ha).trans (hsame a ?_)
  rintro rfl
  simp at ha

omit [ConfigLib] in
theorem counts_advanced (cluster : Ad E) (np nr pa : ℤ) : Counts (Queue.advancedCluster cluster np nr pa) np := by
  intro ad' h'
  have hlit : ad' .jobMaterializeNextProcId = some (lit (.int np)) := by
    rw [h' _ (by decide)]
    by_cases hp : pa = 0 <;> simp [Queue.advancedCluster, hp, Ad.setInt_apply]
  rw [intAttr, Ad.evaluateAttrInt_lit hlit]
  rfl

omit [ConfigLib] in
theorem pauseFactory_cluster {q : Queue E} {c code : ℤ} {written : Bool} {ad' : Ad E}
    (h : (q.pauseFactory c code written).coll.lookup (clusterKey c) = some ad') :
    ∃ ad, q.coll.lookup (clusterKey c) = some ad ∧ ∀ a, a ≠ .jobMaterializePaused → ad' a = ad a := by
  unfold Queue.pauseFactory at h
  cases hg : q.coll.get (clusterKey c) with
  | none =>
    rw [hg] at h
    exact ⟨ad', h, fun _ _ => rfl⟩
  | some cluster =>
    have hl : q.coll.lookup (clusterKey c) = some cluster := by rwa [Store.get_neg _ (by simp)] at hg
    rw [hg] at h
    cases written with
    | false => exact ⟨ad', h, fun _ _ => rfl⟩
    | true =>
      simp only [if_true, Store.lookup_put, Option.some.injEq] at h
      subst h
      exact ⟨cluster, hl, fun a ha => by rw [Ad.setInt_apply, if_neg ha]⟩

omit [ConfigLib] in
theorem cleanup_cluster {e : Engine E} {c : ℤ} {ad : Ad E}
    (h : (cleanup c e).q.coll.lookup (clusterKey c) = some ad) : e.q.coll.lookup (clusterKey c) = some ad := by
  have hsame := clusterAd_cleaned (q := e.q) (c := c) (R := fun ad => e.q.coll.lookup (clusterKey c) = some ad)
    (fun ad hl => hl) c
  unfold cleanup at h
  rcases hr : e.q.maybeCleanupFactoryCluster c with ⟨_ | _, _⟩
  · rw [hr] at h
    exact h
  · rw [hr] at h hsame
    exact hsame ad h

omit [ConfigLib] in
theorem cleanup_rest (e : Engine E) (c : ℤ) : (cleanup c e).made = e.made ∧
    ∀ fc, (cleanup c e).cache.lookup c = some fc → e.cache.lookup c = some fc := by
  unfold cleanup
  rcases e.q.maybeCleanupFactoryCluster c with ⟨_ | _, _⟩
  · exact ⟨rfl, fun fc h => h⟩
  · exact ⟨rfl, fun fc h => KeyMap.lookup_of_erase h⟩

/-! ### The steps -/

/-- the cluster ad may lose its pause or gain one; the log, the cache and the visit may be dropped -/
theorem Inv.frame {f : FactorySpec} {c : ℤ} {s s' : Production E} (h : Inv f c s)
    (hstored : ∀ ad', s'.engine.q.coll.lookup (clusterKey c) = some ad' →
      ∃ ad, s.engine.q.coll.lookup (clusterKey c) = some ad ∧ ∀ a, a ≠ .jobMaterializePaused → ad' a = ad a)
    (hmade : s'.engine.made = s.engine.made)
    (hcached : ∀ fc, s'.engine.cache.lookup c = some fc → fc.rows = f.rows ∧ f.IsDigest fc.digest)
    (hvisit : ∀ v, s'.visit = some v → s.visit = some v) : Inv f c s' where
  stored := by
    intro ad' hl'
    obtain ⟨ad, hl, hsame⟩ := hstored ad' hl'
    obtain ⟨hdesc, hcount⟩ := h.stored ad hl
    rw [hmade]
    refine ⟨hdesc.congr fun a ha => hsame a fun hp => ha ?_, hcount.congr hsame⟩
    rw [hp]
    decide
  procs := by rw [hmade]; exact h.procs
  made := by rw [hmade]; exact h.made
  bounded := by rw [hmade]; exact h.bounded
  cached := hcached
  visiting := fun v hv => by rw [hmade]; exact h.visiting v (hvisit v hv)

theorem begin_inv {f : FactorySpec} (hlt : f.total < 2 ^ 63) {c : ℤ} {e : Engine E} {w : Engine.World}
    (h : Inv f c ⟨e, none⟩) (hu : (e.cache.lookup c).isSome ∨ f.Readable w) : Inv f c (begin c w e) := by
  unfold begin
  cases hfi : e.q.factoryInfo c with
  | none =>
    refine h.frame (fun ad hl => ⟨ad, hl, fun _ _ => rfl⟩) rfl (fun fc hc => ?_) (fun v hv => hv)
    exact h.cached fc (KeyMap.lookup_of_erase hc)
  | some fi =>
    obtain ⟨ad, hl, hdf, hif, hlim, hmax, hnext, -⟩ := Queue.factoryInfo_some hfi
    obtain ⟨hdesc, hcount⟩ := h.stored ad hl
    obtain ⟨hd, hi, hli, hmi⟩ := hdesc ad fun _ _ => rfl
    dsimp only
    by_cases hp : fi.paused ≠ 0
    · rw [if_pos hp]
      refine h.frame (fun ad' hl' => ⟨ad', cleanup_cluster hl', fun _ _ => rfl⟩) (cleanup_rest e c).1 (fun fc hc => ?_)
        (fun v hv => hv)
      exact h.cached fc ((cleanup_rest e c).2 fc hc)
    · rw [if_neg hp]
      obtain ⟨_, _, hload, hrows, hdig, hq, hmade⟩ := FactorySpec.load_ok h.cached hu
        (Option.some.inj (hdf.symm.trans hd)) (hif.trans hi)
      rw [hload]
      dsimp only
      refine ⟨?_, ?_, ?_, ?_, fun fc' hc' => ?_, fun v hv => ?_⟩
      · rw [hq, hmade]
        exact h.stored
      · rw [hmade]
        exact h.procs
      · rw [hmade]
        exact h.made
      · rw [hmade]
        exact h.bounded
      · rw [AList.lookup_insert] at hc'
        cases hc'
        exact ⟨hrows, hdig⟩
      · cases hv
        refine ⟨FactorySpec.procLimit_eq hlt (hlim.trans hli) hrows hdig, hmax.trans hmi, hrows, hdig, ?_⟩
        rw [hmade, hnext]
        exact hcount ad fun _ _ => rfl

/-- one more proc of the cluster: the next number, from the row it stands for -/
theorem advance_inv {f : FactorySpec} {c : ℤ} {e : Engine E} {v : Visit} (w : Engine.World) (h : Inv f c ⟨e, some v⟩) :
    Inv f c (advance c w e v) := by
  obtain ⟨hlim, hmax, hrows, hdig, hnext⟩ := h.visiting v rfl
  unfold advance
  by_cases hgo : v.next < v.limit ∧ ¬ (0 ≤ v.maxIdle ∧ v.maxIdle ≤ v.idle)
  · rw [if_pos hgo]
    have h0 : 0 ≤ v.next := by rw [hnext]; exact Int.natCast_nonneg _
    obtain ⟨hrow, hrange, hstep⟩ := FactorySpec.row_step hdig h0 (hlim ▸ hgo.1)
    rw [hrows, FactorySpec.rowAt_eq f (hrow ▸ hrange.1)]
    dsimp only
    have hcached : ∀ rawRow fc, (e.cache.insert c ⟨(v.digest.materialize E c v.next rawRow).2, f.rows⟩).lookup c =
        some fc → fc.rows = f.rows ∧ f.IsDigest fc.digest := by
      intro rawRow fc hc
      rw [AList.lookup_insert] at hc
      cases hc
      exact ⟨rfl, FactorySpec.isDigest_materialize hdig c v.next rawRow⟩
    split
    · exact h.frame (fun ad hl => ⟨ad, hl, fun _ _ => rfl⟩) rfl (hcached _) (fun v hv => by cases hv)
    · rename_i q' log hm
      obtain ⟨cluster, herr, -, -⟩ := Queue.materializeProc_ok hm
      obtain ⟨cluster, hcl, hlook⟩ := Queue.materializeProc_lookup hm
      rw [herr] at hm
      have hlen : ∀ m : Made E, ((e.made ++ [m]).length : ℤ) = v.next + 1 := by
        intro m
        rw [hnext, length_append, length_singleton]
        push_cast
        rfl
      refine ⟨fun ad hl => ?_, ?_, fun m hm' => ?_, ?_, hcached _, fun v' hv' => ?_⟩
      · rw [hlook, if_pos rfl] at hl
        cases hl
        rw [hlen]
        refine ⟨(h.stored cluster hcl).1.congr fun a ha => ?_, counts_advanced _ _ _ _⟩
        exact Queue.advancedCluster_apply _ _ _ _ _ (by simpa [bookkeeping] using ha)
      · have hprocs := h.procs
        simp only [map_append, length_append, length_singleton, range_succ, map_cons,
          map_nil]
        rw [hprocs, hnext]
        rfl
      · rcases mem_append.1 hm' with hm' | hm'
        · exact h.made m hm'
        · simp only [mem_singleton] at hm'
          subst hm'
          exact ⟨rfl, ⟨log, hm⟩, hdig, hrow, hrange, by rw [hrow], hstep⟩
      · rw [hlen, ← hlim]
        omega
      · cases hv'
        rw [hlen]
        exact ⟨hlim, hmax, rfl, FactorySpec.isDigest_materialize hdig c v.next _, rfl⟩
  · rw [if_neg hgo]
    refine h.frame (fun ad' hl' => ?_) ?_ (fun fc hc => ?_) (fun v hv => by cases hv)
    · split_ifs at hl'
      · exact pauseFactory_cluster hl'
      · exact ⟨ad', hl', fun _ _ => rfl⟩
    · split_ifs <;> rfl
    · split_ifs at hc <;> exact h.cached fc hc

/-- **The step.** Every event of an undisturbed history keeps the invariant. -/
theorem step_inv {f : FactorySpec} (hlt : f.total < 2 ^ 63) {c : ℤ} {ev : Event E}
    (hu : Undisturbed f c s ev) (h : Inv f c s) : Inv f c (step c s ev) := by
  cases ev with
  | visit =>
    simp only [step]
    by_cases hbusy : s.engine.crashed = true ∨ s.visit.isSome = true
    · rw [if_pos hbusy]
      exact h
    · rw [if_neg hbusy]
      obtain ⟨e, v⟩ := s
      have hv : v = none := by simpa using fun hv => hbusy (.inr hv)
      subst hv
      exact begin_inv hlt h hu
  | advance w =>
    obtain ⟨_, v⟩ := s
    cases v with
    | none => exact h
    | some => exact advance_inv w h
  | cleanup =>
    refine h.frame (fun ad' hl' => ⟨ad', cleanup_cluster hl', fun _ _ => rfl⟩) (cleanup_rest s.engine c).1
      (fun fc hc => ?_)
      (fun v hv => hv)
    exact h.cached fc ((cleanup_rest s.engine c).2 fc hc)
  | edit => exact h.frame hu rfl h.cached (fun v hv => hv)
  | restart =>
    refine h.frame (fun ad hl => ⟨ad, hl, fun _ _ => rfl⟩) rfl (fun fc hc => ?_) (fun v hv => by cases hv)
    simp [step] at hc

theorem run_inv {f : FactorySpec} (hlt : f.total < 2 ^ 63) {c : ℤ} {evs : List (Event E)}
    (hs : Inv f c s) (h : Runs.Meets (step c) (Undisturbed f c) s evs) : Inv f c (evs.foldl (step c) s) :=
  Runs.foldl_inv_of (A := Undisturbed f c) (P := Inv f c) (fun _ _ hu hi => step_inv hlt hu hi) hs h

end Production

end

end AccessPoint
