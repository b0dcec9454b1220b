/-
What a visit achieves: a job factory is topped up, and comes to its end (`materializeCluster` of
internal/factory/engine.go).

`Production` says what a factory never does, however the engine is interrupted. Here is the other half. A visit that is
not interrupted adds as many procs as the bound and the idle bound leave room for, and a factory whose visits find room
again and again produces all its procs, through failed writes and restarts.

- `loop_turn`: one turn of the loop, in an open factory: a proc more, or a write that failed.
- `visit_tops_up`: how many procs a visit adds, after any undisturbed history, and what the cluster ad says then.
- `factory_finishes`: a factory is finished after as many productive rounds as it is to have procs.
-/
import AccessPoint.Factory.ExactlyOnce

namespace AccessPoint

open ClassAdLib Engine

section

variable {E : Type} [ClassAdLib E]

/-! ## Open and finished factories -/

/-- the cluster ad is there and not paused -/
def Queue.Open (q : Queue E) (c : ℤ) : Prop := ∃ ad, q.coll.lookup (clusterKey c) = some ad ∧ ad.Unpaused

/-- the cluster ad is there and says that the factory makes no more procs -/
def Queue.Finished (q : Queue E) (c : ℤ) : Prop :=
  ∃ ad, q.coll.lookup (clusterKey c) = some ad ∧ ad .jobMaterializePaused = some (lit (.int pauseNoMoreItems))

/-- what a materialization does to an open factory -/
theorem Queue.Open.materializeProc {q : Queue E} {c : ℤ} (h : q.Open c) (proc : ℤ) (override : Option (Ad E))
    (np nr now : ℤ) (last : Bool) :
    ∃ q' log, q.materializeProc c proc override np nr (if last then pauseNoMoreItems else 0) now none = .ok (q', log) ∧
      (last = false → q'.Open c) ∧ (last = true → q'.Finished c) := by
  obtain ⟨ad, hl, hun⟩ := h
  have hg : q.coll.get (clusterKey c) = some ad := by rwa [Store.get_neg _ (by simp)]
  have hm : ∃ q' log, q.materializeProc c proc override np nr (if last then pauseNoMoreItems else 0) now none =
      .ok (q', log) := by
    unfold Queue.materializeProc
    rw [hg]
    exact ⟨_, _, rfl⟩
  obtain ⟨q', log, hm⟩ := hm
  obtain ⟨cluster, hcl, hlook⟩ := Queue.materializeProc_lookup hm
  obtain rfl : ad = cluster := Option.some.inj (hl.symm.trans hcl)
  refine ⟨q', log, hm, fun hlast => ⟨_, (hlook _).trans (if_pos rfl), ?_⟩, fun hlast =>
    ⟨_, (hlook _).trans (if_pos rfl), ?_⟩⟩
  · subst hlast
    exact hun.advanced _ _
  · subst hlast
    simp [Queue.advancedCluster, pauseNoMoreItems, Ad.setInt_apply]

theorem Queue.Finished.pauseFactory {q : Queue E} {c : ℤ} (h : q.Finished c) (written : Bool) :
    (q.pauseFactory c pauseNoMoreItems written).Finished c := by
  obtain ⟨ad, hl, hp⟩ := h
  unfold Queue.pauseFactory
  rw [Store.get_neg _ (by simp), hl]
  cases written with
  | false => exact ⟨ad, hl, hp⟩
  | true =>
    dsimp only
    rw [if_pos rfl]
    exact ⟨_, by rw [Store.lookup_put, if_pos rfl], by rw [Ad.setInt_apply, if_pos rfl]⟩

end

/-! ## The loop -/

section

variable {E : Type} [ConfigLib] [ClassAdLib E]

namespace FactorySpec

/-- the factory has no idle bound, or so many idle procs are below it -/
def HasRoom (f : FactorySpec) (idle : ℤ) : Prop := ¬ (0 ≤ f.maxIdle ∧ f.maxIdle ≤ idle)

instance (f : FactorySpec) (idle : ℤ) : Decidable (f.HasRoom idle) :=
  inferInstanceAs (Decidable (¬ (0 ≤ f.maxIdle ∧ f.maxIdle ≤ idle)))

/-- the procs a visit is to add: up to the bound, and up to the idle bound if there is one -/
def topUp (f : FactorySpec) (made idle : ℤ) : ℕ :=
  if f.maxIdle < 0 then (f.bound - made).toNat else (min (f.bound - made) (f.maxIdle - idle)).toNat

variable {f : FactorySpec}

omit [ConfigLib] in
theorem topUp_succ {made idle : ℤ} (hlt : made < f.bound) (hroom : f.HasRoom idle) :
    f.topUp made idle = f.topUp (made + 1) (idle + 1) + 1 := by
  unfold HasRoom at hroom
  unfold topUp
  split_ifs <;> omega

omit [ConfigLib] in
theorem topUp_zero {made idle : ℤ} (h : ¬ (made < f.bound ∧ f.HasRoom idle)) : f.topUp made idle = 0 := by
  unfold HasRoom at h
  unfold topUp
  split_ifs <;> omega

variable (w : Engine.World) {l : Engine.LoopState E}

/-- **One turn.** In an open factory with room for a proc the loop adds it, or ends where the proc cannot be written. -/
theorem loop_turn {c : ℤ} (n : ℕ) (hdig : f.IsDigest l.digest)
    (h0 : 0 ≤ l.next) (hlt : l.next < f.bound) (hroom : f.HasRoom l.idle) (hopen : l.q.Open c) :
    (w.updErr l.next = none ∧ ∃ l' : Engine.LoopState E,
      Engine.materializeLoop w c f.bound f.maxIdle f.rows (n + 1) l =
          Engine.materializeLoop w c f.bound f.maxIdle f.rows n l' ∧
        f.IsDigest l'.digest ∧ l'.next = l.next + 1 ∧ l'.idle = l.idle + 1 ∧ l'.made.length = l.made.length + 1 ∧
        l'.ended = .finished ∧ (l'.next < f.bound → l'.q.Open c) ∧ (f.bound ≤ l'.next → l'.q.Finished c)) ∨
      (w.updErr l.next ≠ none ∧
        (Engine.materializeLoop w c f.bound f.maxIdle f.rows (n + 1) l).ended = .failed ∧
        (Engine.materializeLoop w c f.bound f.maxIdle f.rows (n + 1) l).made = l.made ∧
        (Engine.materializeLoop w c f.bound f.maxIdle f.rows (n + 1) l).q = l.q) := by
  obtain ⟨hrow, hrange, -⟩ := row_step hdig h0 hlt
  have hrowAt := rowAt_eq f (hrow ▸ hrange.1 : 0 ≤ l.digest.rowIndex l.next)
  have hgo : l.next < f.bound ∧ ¬ (0 ≤ f.maxIdle ∧ f.maxIdle ≤ l.idle) := ⟨hlt, hroom⟩
  simp only [materializeLoop, if_pos hgo, hrowAt]
  cases hw : w.updErr l.next with
  | none =>
    obtain ⟨_, _, hm, hmore, hlast⟩ := hopen.materializeProc l.next
      (some (l.digest.materialize E c l.next (f.row (l.digest.rowIndex l.next))).1) (l.next + 1)
      (l.digest.rowIndex (l.next + 1)) w.now (decide (f.bound ≤ l.next + 1))
    simp only [decide_eq_true_eq, decide_eq_false_iff_not, not_le] at hm hmore hlast
    left
    rw [hm]
    refine ⟨rfl, _, rfl, isDigest_materialize hdig c l.next _, rfl, rfl, ?_, rfl, hmore, hlast⟩
    rw [List.length_append]
    rfl
  | some =>
    obtain ⟨ad, _, -⟩ := hopen
    have hg : l.q.coll.get (clusterKey c) = some ad := by rwa [Store.get_neg _ (by simp)]
    right
    simp [Queue.materializeProc, hg]

theorem loop_stops (c : ℤ) (n : ℕ) (h : ¬ (l.next < f.bound ∧ f.HasRoom l.idle)) :
    Engine.materializeLoop w c f.bound f.maxIdle f.rows n l = l := by
  cases n with
  | zero => rfl
  | succ =>
    unfold materializeLoop
    exact if_neg h

/-- what a loop leaves, whichever writes fail: no crash, nothing lost, and the factory open unless all procs are made -/
structure Served (f : FactorySpec) (w : Engine.World) (c : ℤ) (l r : Engine.LoopState E) : Prop where
  ended : r.ended ≠ .crashed
  grows : l.made.length ≤ r.made.length
  counted : r.ended = .finished → r.next = l.next + (r.made.length - l.made.length)
  opened : l.next + (r.made.length - l.made.length) < f.bound → r.q.Open c
  productive : l.next < f.bound → f.HasRoom l.idle → w.updErr l.next = none → l.made.length < r.made.length

theorem loop_served {c : ℤ} (n : ℕ) (l : Engine.LoopState E)
    (hn : (f.bound - l.next).toNat = n) (hdig : f.IsDigest l.digest) (h0 : 0 ≤ l.next) (hend : l.ended = .finished)
    (hopen : l.next < f.bound → l.q.Open c) :
    f.Served w c l (Engine.materializeLoop w c f.bound f.maxIdle f.rows n l) := by
  have hstop : ∀ l : Engine.LoopState E, l.ended = .finished → (l.next < f.bound → l.q.Open c) →
      ¬ (l.next < f.bound ∧ f.HasRoom l.idle) → f.Served w c l l := by
    intro l hend hopen hno
    exact ⟨by simp [hend], le_refl _, fun _ => by omega, fun h => hopen (by omega),
      fun hlt hroom _ => absurd ⟨hlt, hroom⟩ hno⟩
  induction n generalizing l with
  | zero => exact hstop l hend hopen fun h => by omega
  | succ n ih =>
    by_cases hgo : l.next < f.bound ∧ f.HasRoom l.idle
    · obtain ⟨hlt, hroom⟩ := hgo
      rcases loop_turn w n hdig h0 hlt hroom (hopen hlt) with ⟨-, l', heq, hdig', _, _, _, hend', hmore, -⟩ |
        ⟨herr, hfail, hmade, hq⟩
      · rw [heq]
        have hrest := ih l' (by omega) hdig' (by omega) hend' hmore
        have hgrows := hrest.grows
        refine ⟨hrest.ended, by omega, fun h => ?_, fun h => hrest.opened (by omega), fun _ _ _ => by omega⟩
        have hcounted := hrest.counted h
        omega
      · refine ⟨by simp [hfail], by rw [hmade], fun h => ?_, fun _ => by rw [hq]; exact hopen hlt,
          fun _ _ hw => absurd hw herr⟩
        rw [hfail] at h
        cases h
    · rw [loop_stops w c (n + 1) hgo]
      exact hstop l hend hopen hgo

/-- without a failed write the loop runs up to a bound -/
theorem loop_tops_up {w : Engine.World} (hw : ∀ p, w.updErr p = none) {c : ℤ} (n : ℕ)
    (l : Engine.LoopState E) (hn : (f.bound - l.next).toNat = n) (hdig : f.IsDigest l.digest) (h0 : 0 ≤ l.next)
    (hend : l.ended = .finished) (hopen : l.next < f.bound → l.q.Open c) (hdone : f.bound ≤ l.next → l.q.Finished c) :
    let r := materializeLoop w c f.bound f.maxIdle f.rows n l
    r.ended = .finished ∧ r.made.length = l.made.length + f.topUp l.next l.idle ∧
      r.next = l.next + f.topUp l.next l.idle ∧ (f.bound ≤ r.next → r.q.Finished c) := by
  induction n generalizing l with
  | zero =>
    have hno : ¬ (l.next < f.bound ∧ f.HasRoom l.idle) := fun h => by omega
    rw [topUp_zero hno]
    exact ⟨hend, rfl, (add_zero _).symm, hdone⟩
  | succ n ih =>
    intro r
    by_cases hgo : l.next < f.bound ∧ f.HasRoom l.idle
    · obtain ⟨hlt, hroom⟩ := hgo
      rcases loop_turn w n hdig h0 hlt hroom (hopen hlt) with
        ⟨-, l', heq, hdig', hnext, hidle, hlen, hend', hmore, hlast⟩ |
        ⟨herr, -⟩
      · obtain ⟨hrend, _, hrnext, hrdone⟩ := ih l' (by omega) hdig' (by omega) hend' hmore hlast
        have hr : r = materializeLoop w c f.bound f.maxIdle f.rows n l' := heq
        rw [hr, topUp_succ hlt hroom, ← hnext, ← hidle]
        refine ⟨hrend, by omega, ?_, hrdone⟩
        rw [hrnext]
        push_cast
        omega
      · exact absurd (hw _) herr
    · have hr : r = l := loop_stops w c (n + 1) hgo
      rw [hr, topUp_zero hgo]
      exact ⟨hend, rfl, (add_zero _).symm, hdone⟩

end FactorySpec

namespace Production

/-! ## A visit -/

omit [ClassAdLib E] in
theorem loadFactory_crashed (w : Engine.World) (e : Engine E) (c : ℤ) (fi : FactoryInfo) :
    (Engine.loadFactory w e c fi).2.crashed = e.crashed := by
  unfold loadFactory
  cases e.cache.lookup c with
  | some => rfl
  | none =>
    dsimp only
    cases readFactory w fi <;> rfl

omit [ConfigLib] in
theorem finish_made (c : ℤ) (w : Engine.World) (e : Engine E) (limit : ℤ) (rows : List String)
    (l : Engine.LoopState E) :
    (finish c w e limit rows l).made = e.made ++ l.made := by
  unfold finish
  cases l.ended with
  | crashed | failed => rfl
  | finished =>
    dsimp only
    split_ifs <;> rfl

omit [ConfigLib] in
theorem finish_crashed (c : ℤ) (w : Engine.World) (e : Engine E) (limit : ℤ) (rows : List String)
    {l : Engine.LoopState E}
    (h : l.ended ≠ .crashed) : (finish c w e limit rows l).crashed = e.crashed := by
  unfold finish
  cases hl : l.ended with
  | crashed => exact absurd hl h
  | failed => rfl
  | finished =>
    dsimp only
    split_ifs <;> rfl

omit [ConfigLib] in
/-- a visit pauses the factory exactly when its loop came to the limit -/
theorem finish_q (c : ℤ) (w : Engine.World) (e : Engine E) (limit : ℤ) (rows : List String) (l : Engine.LoopState E) :
    (finish c w e limit rows l).q =
      if l.ended = .finished ∧ limit ≤ l.next then l.q.pauseFactory c pauseNoMoreItems w.pauseWritten else l.q := by
  unfold finish
  cases l.ended with
  | crashed | failed => rfl
  | finished =>
    dsimp only
    by_cases hlim : limit ≤ l.next
    · rw [if_pos hlim, if_pos ⟨rfl, hlim⟩]
    · rw [if_neg hlim, if_neg fun h => hlim h.2]

variable {e : Engine E} {f : FactorySpec}

/-- a visit of an open factory is its loop, from the count of procs and of idle procs -/
theorem visit_open (hlt : f.total < 2 ^ 63) (hname : f.digestFile ≠ "") {c : ℤ}
    {w : Engine.World} (h : Inv f c ⟨e, none⟩) (hopen : e.q.Open c) (hcr : e.crashed = false)
    (hread : (e.cache.lookup c).isSome ∨ f.Readable w) :
    ∃ (e' : Engine E) (d : Digest), e'.made = e.made ∧ e'.crashed = false ∧ f.IsDigest d ∧
      Engine.materializeCluster w e c = finish c w e' f.bound f.rows
        (Engine.materializeLoop w c f.bound f.maxIdle f.rows (f.bound - e.made.length).toNat
          ⟨e.q, d, (e.q.clusterStatusCounts c).idle, e.made.length, [], .finished⟩) := by
  obtain ⟨ad, hl, hun⟩ := hopen
  obtain ⟨hdesc, hcount⟩ := h.stored ad hl
  obtain ⟨hd, hi, hlim, hmax⟩ := hdesc ad fun _ _ => rfl
  have hfi : ∃ fi, e.q.factoryInfo c = some fi := by
    unfold Queue.factoryInfo
    rw [Store.get_neg _ (by simp), hl]
    dsimp only
    rw [hd]
    dsimp only
    rw [if_neg hname]
    exact ⟨_, rfl⟩
  obtain ⟨fi, hfi⟩ := hfi
  obtain ⟨ad', hl', hdf, hif, hfl, hfm, hnext, -, -, hpaused, hidle⟩ := Queue.factoryInfo_some hfi
  obtain rfl : ad = ad' := Option.some.inj (hl.symm.trans hl')
  have hp : ¬ fi.paused ≠ 0 := by
    rw [hpaused, hun ad fun _ _ => rfl]
    exact fun h => h rfl
  obtain ⟨fc, e', hload, hrows, hdig, hq, hmade⟩ := FactorySpec.load_ok h.cached hread
    (Option.some.inj (hdf.symm.trans hd)) (hif.trans hi)
  have hlimit := FactorySpec.procLimit_eq hlt (hfl.trans hlim) hrows hdig
  have hnext' : fi.nextProcId = e.made.length := hnext.trans (hcount ad fun _ _ => rfl)
  refine ⟨e', fc.digest, hmade, ?_, hdig, ?_⟩
  · have hsame := loadFactory_crashed w e c fi
    rw [hload] at hsame
    exact hsame.trans hcr
  · have hrun : materializeCluster w e c =
        finish c w e' (procLimit fi fc) fc.rows (runLoop w e'.q c fi fc) := by
      simp only [materializeCluster, hcr, hfi, if_neg hp, hload]
      rfl
    rw [hrun, runLoop, hlimit, hrows, hq, hidle, hnext', hfm, hmax]

/-- a visit of an open factory, whichever writes fail: it stays open unless all procs are made, and with room for a proc
that can be written it adds one -/
theorem visit_served (hlt : f.total < 2 ^ 63) (hname : f.digestFile ≠ "") {c : ℤ}
    {w : Engine.World} (h : Inv f c ⟨e, none⟩) (hopen : e.q.Open c) (hcr : e.crashed = false)
    (hread : (e.cache.lookup c).isSome ∨ f.Readable w) (hmore : (e.made.length : ℤ) < f.bound) :
    let e' := materializeCluster w e c
    e'.crashed = false ∧ ((e'.made.length : ℤ) < f.bound → e'.q.Open c) ∧
      (f.HasRoom (e.q.clusterStatusCounts c).idle → w.updErr e.made.length = none →
        e.made.length < e'.made.length) := by
  intro e'
  obtain ⟨e₁, d, hmade, hcr₁, hdig, hvisit⟩ := visit_open hlt hname h hopen hcr hread
  have hserved := FactorySpec.loop_served w (f.bound - e.made.length).toNat
    ⟨e.q, d, (e.q.clusterStatusCounts c).idle, e.made.length, [], .finished⟩ rfl hdig (Int.natCast_nonneg _) rfl
    (fun _ => hopen)
  have he' : e' = _ := hvisit
  have hlen := congrArg List.length
    (finish_made c w e₁ f.bound f.rows (materializeLoop w c f.bound f.maxIdle f.rows
    (f.bound - e.made.length).toNat ⟨e.q, d, (e.q.clusterStatusCounts c).idle, e.made.length, [], .finished⟩))
  rw [← he', List.length_append, hmade] at hlen
  have hcounted := hserved.counted
  have hopened := hserved.opened
  simp only [List.length_nil, Nat.cast_zero, sub_zero] at hcounted hopened
  refine ⟨?_, fun hlt' => ?_, fun hroom hw => ?_⟩
  · rw [he', finish_crashed c w e₁ f.bound f.rows hserved.ended]
    exact hcr₁
  · rw [he', finish_q, if_neg]
    · exact hopened (by omega)
    · rintro ⟨hend, _⟩
      have := hcounted hend
      omega
  · have hadds := hserved.productive hmore hroom hw
    simp only [List.length_nil] at hadds
    omega

theorem advances_undisturbed (f : FactorySpec) (c : ℤ) (w : Engine.World) (n : ℕ) (s : Production E) :
    Runs.Meets (step c) (Undisturbed f c) s (List.replicate n (.advance w)) := by
  induction n generalizing s with
  | zero => exact trivial
  | succ n ih => exact ⟨trivial, ih _⟩

theorem visit_inv (hlt : f.total < 2 ^ 63) {c : ℤ} {w : Engine.World}
    (h : Inv f c ⟨e, none⟩) (hread : (e.cache.lookup c).isSome ∨ f.Readable w) :
    Inv f c ⟨Engine.materializeCluster w e c, none⟩ := by
  obtain ⟨n, hrun⟩ := visit_run c w e
  rw [← hrun]
  exact run_inv hlt h ⟨hread, advances_undisturbed f c w n _⟩

/-- **A visit tops the factory up.** After any undisturbed history, a visit that is not interrupted and whose writes
succeed adds as many procs as the bound and the idle bound leave room for, the next numbers, each from its row. The
cluster ad counts them, and it says that the factory is finished if and only if all its procs are made. -/
theorem visit_tops_up (f : FactorySpec) (hlt : f.total < 2 ^ 63) (hname : f.digestFile ≠ "") (c : ℤ) (s₀ : Production E)
    (h₀ : Fresh f c s₀) (evs : List (Event E)) (hevs : Runs.Meets (step c) (Undisturbed f c) s₀ evs) (e : Engine E)
    (he : evs.foldl (step c) s₀ = ⟨e, none⟩) (hcr : e.crashed = false) (hopen : e.q.Open c)
    (hmore : (e.made.length : ℤ) < f.bound) (w : Engine.World) (hread : (e.cache.lookup c).isSome ∨ f.Readable w)
    (hw : ∀ p, w.updErr p = none) :
    let n := e.made.length + f.topUp e.made.length (e.q.clusterStatusCounts c).idle
    let e' := materializeCluster w e c
    e'.crashed = false ∧ e'.made.map (·.proc) = (List.range n).map Int.ofNat ∧ (∀ m ∈ e'.made, f.Expands c m) ∧
      (∀ ad, e'.q.coll.lookup (clusterKey c) = some ad → intAttr ad .jobMaterializeNextProcId 0 = n) ∧
      ((n : ℤ) < f.bound → e'.q.Open c) ∧ ((n : ℤ) = f.bound → e'.q.Finished c) := by
  intro n e'
  have hinv : Inv f c ⟨e, none⟩ := he ▸ run_inv hlt h₀.inv hevs
  have hinv' : Inv f c ⟨e', none⟩ := visit_inv hlt hinv hread
  obtain ⟨_, d, hmade, _, hdig, hvisit⟩ := visit_open hlt hname hinv hopen hcr hread
  obtain ⟨hend, hlen, hnext, hdone⟩ := FactorySpec.loop_tops_up hw (f.bound - e.made.length).toNat
    ⟨e.q, d, (e.q.clusterStatusCounts c).idle, e.made.length, [], .finished⟩ rfl hdig (Int.natCast_nonneg _) rfl
    (fun _ => hopen) (fun h => absurd hmore (not_lt.2 h))
  obtain ⟨hcr', hstays, -⟩ := visit_served hlt hname hinv hopen hcr hread hmore
  have he' : e' = _ := hvisit
  have hn : e'.made.length = n := by
    rw [he', finish_made, List.length_append, hmade, hlen]
    simp [n]
  refine ⟨hcr', ?_, hinv'.made, ?_, fun hlt' => hstays (hn ▸ hlt'), ?_⟩
  · rw [← hn]
    exact hinv'.procs
  · intro ad hl
    rw [← hn]
    exact (hinv'.stored ad hl).2 ad fun _ _ => rfl
  · intro heq
    have hle : f.bound ≤ (e.made.length : ℤ) + f.topUp e.made.length (e.q.clusterStatusCounts c).idle := by
      simp only [n] at heq
      push_cast at heq
      omega
    rw [he', finish_q, if_pos ⟨hend, hnext ▸ hle⟩]
    exact (hdone (hnext ▸ hle)).pauseFactory w.pauseWritten

/-! ## A factory comes to its end -/

/-- what happens between two visits, and the world around the second: the rest of the schedd makes `q` of the queue, and
the schedd may restart -/
structure Round (E : Type) where
  q : Queue E
  restarted : Bool
  w : Engine.World

/-- the engine when the visit of a round begins -/
def Round.before (e : Engine E) (r : Round E) : Engine E :=
  { e with q := r.q, cache := if r.restarted then ∅ else e.cache }

def round (c : ℤ) (e : Engine E) (r : Round E) : Engine E := Engine.materializeCluster r.w (r.before e) c

/-- nobody but the engine changes the cluster ad, and the files are there when they have to be read -/
structure Leaves (f : FactorySpec) (c : ℤ) (e : Engine E) (r : Round E) : Prop where
  cluster : r.q.coll.lookup (clusterKey c) = e.q.coll.lookup (clusterKey c)
  files : ((r.before e).cache.lookup c).isSome ∨ f.Readable r.w

/-- the visit finds fewer idle procs than the idle bound, and the next proc can be written -/
def Productive (f : FactorySpec) (c : ℤ) (e : Engine E) (r : Round E) : Prop :=
  f.HasRoom (r.q.clusterStatusCounts c).idle ∧ r.w.updErr e.made.length = none

instance (f : FactorySpec) (c : ℤ) (e : Engine E) (r : Round E) : Decidable (Productive f c e r) :=
  inferInstanceAs (Decidable (_ ∧ _))

/-- the number of productive rounds -/
def productive (f : FactorySpec) (c : ℤ) : Engine E → List (Round E) → ℕ
  | _, [] => 0
  | e, r :: rs => (if Productive f c e r then 1 else 0) + productive f c (round c e r) rs

/-- a factory that can go on while it has procs to make -/
structure Live (f : FactorySpec) (c : ℤ) (e : Engine E) : Prop where
  inv : Inv f c ⟨e, none⟩
  running : (e.made.length : ℤ) < f.bound → e.crashed = false ∧ e.q.Open c

/-- no visit forgets a proc that was made -/
theorem materializeCluster_grows (w : Engine.World) (e : Engine E) (c : ℤ) :
    e.made.length ≤ (Engine.materializeCluster w e c).made.length := by
  unfold materializeCluster
  split_ifs
  · exact le_refl _
  · split
    · exact le_refl _
    · split_ifs
      · rcases e.q.maybeCleanupFactoryCluster c with ⟨_ | _, _⟩ <;> exact le_refl _
      · rename_i fi _ _
        have hmade := (loadFactory_q w e c fi).2
        rcases hload : loadFactory w e c fi with ⟨_ | fc, e'⟩
        · rw [hload] at hmade
          exact (congrArg List.length hmade).ge
        · rw [hload] at hmade
          have hfin := finish_made c w e' (procLimit fi fc) fc.rows (runLoop w e'.q c fi fc)
          have hlen := congrArg List.length hfin
          rw [List.length_append, hmade] at hlen
          exact le_of_le_of_eq (Nat.le_add_right _ _) hlen.symm

/-- **A round.** A factory that can go on still can after it, and a productive one adds a proc to those made. -/
theorem round_live (hlt : f.total < 2 ^ 63) (hname : f.digestFile ≠ "") {c : ℤ}
    {r : Round E} (hr : Leaves f c e r) (h : Live f c e) :
    Live f c (round c e r) ∧ e.made.length ≤ (round c e r).made.length ∧
      ((e.made.length : ℤ) < f.bound → Productive f c e r → e.made.length < (round c e r).made.length) := by
  have hbefore : Inv f c ⟨r.before e, none⟩ := by
    refine h.inv.frame (fun ad hl => ⟨ad, hr.cluster ▸ hl, fun _ _ => rfl⟩) rfl (fun fc hc => ?_) (fun v hv => hv)
    apply h.inv.cached fc
    unfold Round.before at hc
    cases hre : r.restarted with
    | false => rwa [hre] at hc
    | true =>
      rw [hre] at hc
      cases hc
  have hinv : Inv f c ⟨round c e r, none⟩ := visit_inv hlt hbefore hr.files
  have hgrows : e.made.length ≤ (round c e r).made.length := materializeCluster_grows r.w (r.before e) c
  by_cases hmore : (e.made.length : ℤ) < f.bound
  · obtain ⟨hcr, ad, hl, hun⟩ := h.running hmore
    have hopen : (r.before e).q.Open c := ⟨ad, hr.cluster.trans hl, hun⟩
    obtain ⟨hcr', hstays, hadds⟩ := visit_served hlt hname hbefore hopen hcr hr.files hmore
    exact ⟨⟨hinv, fun hlt' => ⟨hcr', hstays hlt'⟩⟩, hgrows, fun _ hprod => hadds hprod.1 hprod.2⟩
  · -- all procs are made: there is nothing left to go on with
    have hbounded := hinv.bounded
    refine ⟨⟨hinv, fun hlt' => ?_⟩, hgrows, fun hlt' => absurd hlt' hmore⟩
    have hlt'' : ((round c e r).made.length : ℤ) < f.bound := hlt'
    omega

theorem rounds_live (hlt : f.total < 2 ^ 63) (hname : f.digestFile ≠ "") {c : ℤ}
    {rs : List (Round E)} (hrs : Runs.Meets (round c) (Leaves f c) e rs) (h : Live f c e) :
    Live f c (rs.foldl (round c) e) ∧
      min f.bound (e.made.length + productive f c e rs) ≤ (rs.foldl (round c) e).made.length := by
  induction rs generalizing e with
  | nil => exact ⟨h, by simp [productive]⟩
  | cons r rs ih =>
    obtain ⟨hlive, _, hadds⟩ := round_live hlt hname hrs.1 h
    obtain ⟨hfin, hmin⟩ := ih hrs.2 hlive
    refine ⟨hfin, le_trans ?_ hmin⟩
    have hbounded := h.inv.bounded
    simp only at hbounded
    simp only [productive]
    by_cases hprod : Productive f c e r
    · rw [if_pos hprod]
      by_cases hmore : (e.made.length : ℤ) < f.bound
      · have := hadds hmore hprod
        push_cast
        omega
      · push_cast
        omega
    · rw [if_neg hprod]
      push_cast
      omega

/-- **A factory comes to its end.** Whatever the rest of the schedd does to the jobs between its visits, with failed
writes and restarts among them, as long as it leaves the cluster ad and the files alone: once as many visits as the
factory is to have procs found fewer procs idle than the idle bound and could write the next proc, all the procs are
there, each once, in order and from its row. -/
theorem factory_finishes (f : FactorySpec) (hlt : f.total < 2 ^ 63) (hname : f.digestFile ≠ "") (c : ℤ) (e : Engine E)
    (hfresh : Fresh f c ⟨e, none⟩) (hcr : e.crashed = false) (hopen : e.q.Open c) (rs : List (Round E))
    (hrs : Runs.Meets (round c) (Leaves f c) e rs) (hprod : f.bound ≤ productive f c e rs) :
    (rs.foldl (round c) e).made.map (·.proc) = (List.range f.bound.toNat).map Int.ofNat ∧
      ∀ m ∈ (rs.foldl (round c) e).made, f.Expands c m := by
  obtain ⟨hlive, _⟩ := rounds_live hlt hname hrs ⟨hfresh.inv, fun _ => ⟨hcr, hopen⟩⟩
  have hbounded := hlive.inv.bounded
  have hlen : (rs.foldl (round c) e).made.length = f.bound.toNat := by
    simp only at hbounded
    omega
  refine ⟨?_, hlive.inv.made⟩
  rw [← hlen]
  exact hlive.inv.procs

end Production

end

/-! ## A factory with item data -/

namespace Production

theorem itemsFactory_open : itemsFactory.Open 1 := by
  have hany : (itemsFactory.coll.lookup (clusterKey 1)).any (fun ad => ad .jobMaterializePaused = none) = true := by
    decide +kernel
  obtain ⟨ad, hl, hp⟩ := (Option.any_eq_true _ _).1 hany
  exact ⟨ad, hl, .of_none (of_decide_eq_true hp)⟩

/-- two procs of four, and the factory stays open -/
theorem items_topped_up :
    (Engine.materializeCluster (itemsWorld false) itemsStart.engine 1).made.map (·.proc) = [0, 1] ∧
      (Engine.materializeCluster (itemsWorld false) itemsStart.engine 1).q.Open 1 := by
  obtain ⟨-, hprocs, -, -, hopen, -⟩ := visit_tops_up itemsSpec (by decide +kernel) (by decide) 1 itemsStart
    itemsStart_fresh [] trivial itemsStart.engine rfl rfl itemsFactory_open (by decide +kernel) (itemsWorld false)
    (.inr (itemsSpec_readable false)) (fun _ => rfl)
  have htop : itemsStart.engine.made.length + itemsSpec.topUp itemsStart.engine.made.length
      (itemsStart.engine.q.clusterStatusCounts 1).idle = 2 := by
    decide +kernel
  rw [htop] at hprocs hopen
  exact ⟨hprocs, hopen (by decide +kernel)⟩

/-- the procs of the factory leave the queue -/
def drained (q : Queue Value) : Queue Value :=
  { q with coll := (((q.coll.delete ⟨1, 0⟩).delete ⟨1, 1⟩).delete ⟨1, 2⟩).delete ⟨1, 3⟩ }

/-- rounds between which the procs leave; with the disk full or not, after a restart or not -/
def itemsRounds : Engine Value → List (Bool × Bool) → List (Round Value)
  | _, [] => []
  | e, (full, restarted) :: bs =>
    ⟨drained e.q, restarted, itemsWorld full⟩ :: itemsRounds (round 1 e ⟨drained e.q, restarted, itemsWorld full⟩) bs

theorem itemsRounds_leave (bs : List (Bool × Bool)) (e : Engine Value) :
    Runs.Meets (round 1) (Leaves itemsSpec 1) e (itemsRounds e bs) := by
  induction bs generalizing e with
  | nil => exact trivial
  | cons b bs ih =>
    obtain ⟨full, _⟩ := b
    refine ⟨⟨?_, .inr (itemsSpec_readable full)⟩, ih _⟩
    simp only [drained, Store.lookup_delete, clusterKey, JobKey.mk.injEq]
    rfl

/-- the disk is full at first, then the schedd restarts -/
def itemsDays : List (Round Value) :=
  itemsRounds itemsStart.engine [(true, false), (false, true), (false, false), (false, false), (false, false)]

/-- all four procs -/
theorem items_finished : (itemsDays.foldl (round 1) itemsStart.engine).made.map (·.proc) = [0, 1, 2, 3] := by
  have hbound : itemsSpec.bound = 4 := by decide +kernel
  have hall := (factory_finishes itemsSpec (by decide +kernel) (by decide) 1 itemsStart.engine itemsStart_fresh rfl
    itemsFactory_open itemsDays (itemsRounds_leave _ _) (by decide +kernel)).1
  rw [hbound] at hall
  exact hall

end Production

end AccessPoint
