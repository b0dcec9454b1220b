/-
Exactly-once materialization: the procs of a factory over whole histories (`Production`).

- `idle_count`: the number of idle procs `FactoryInfo` reports, as a list of keys.
- `step_idle`: one turn of the loop adds at most one idle proc, and none once the idle bound is reached.
- `materialized_exactly_once`: over every undisturbed history, with any number of failed writes, crashes and restarts,
  the procs committed are 0, 1, … up to the count on the cluster ad, proc `p` from row `p / N` with step `p % N`, never
  more than the factory is to produce; and from a point between two visits on, as long as no proc becomes idle
  otherwise, there are never more idle procs than the idle bound, or than there were.
-/
import AccessPoint.Factory.Production
import AccessPoint.Queue.System

namespace AccessPoint

open ClassAdLib

section

variable {E : Type} [ClassAdLib E]

/-! ## Counting idle procs -/

namespace Queue

/-- the proc with this key counts as an idle one of cluster `c` -/
def isIdleProc (q : Queue E) (c : ℤ) (k : JobKey) : Bool :=
  !isStructural k &&
    (q.coll.get k).any fun ad => ad.evaluateAttrInt .clusterId = some c && ad.int0 .jobStatus = statusIdle

def idleProcs (q : Queue E) (c : ℤ) : List JobKey := q.coll.keys.filter (q.isIdleProc c)

theorem foldl_tally_idle (ads : List (Ad E)) (cc : ClusterCounts) :
    (ads.foldl tally cc).idle = cc.idle + ads.countP fun ad => ad.int0 .jobStatus = statusIdle := by
  induction ads generalizing cc with
  | nil => rfl
  | cons ad ads ih =>
    rw [List.foldl_cons, ih, List.countP_cons]
    unfold tally
    by_cases hs : ad.int0 .jobStatus = statusIdle
    · simp only [hs, if_true, decide_true]
      omega
    · have hd : ¬ decide (ad.int0 .jobStatus = statusIdle) = true := by simpa using hs
      dsimp only
      rw [if_neg hs, if_neg hd]
      split_ifs <;> rfl

theorem idle_count (q : Queue E) (c : ℤ) : (q.clusterStatusCounts c).idle = (q.idleProcs c).length := by
  unfold clusterStatusCounts idleProcs
  rw [foldl_tally_idle, List.countP_filter, Store.scan, List.countP_filterMap, ← List.countP_eq_length_filter]
  have hkeys : q.coll.keys = q.coll.entries.map Sigma.fst := rfl
  rw [hkeys, List.countP_map, Nat.zero_add]
  refine List.countP_congr fun e he => ?_
  obtain ⟨k, own⟩ := e
  have hl : q.coll.lookup k = some own := AList.mem_lookup_iff.2 he
  have hg := Store.get_of_lookup hl
  cases hs : isStructural k <;> simp [isIdleProc, hs, hg, and_comm]

end Queue

end

section

variable {E : Type} [ConfigLib] [ClassAdLib E]

namespace Production

/-- the key an event materializes, should it materialize one -/
def adds (c : ℤ) (s : Production E) : Event E → Option JobKey
  | .advance _ =>
    match s.visit with
    | none => none
    | some v => if v.next < v.limit ∧ ¬ (0 ≤ v.maxIdle ∧ v.maxIdle ≤ v.idle) then some ⟨c, v.next⟩ else none
  | _ => none

/-- no proc of the cluster becomes idle, other than by being materialized -/
def Steady (c : ℤ) (s : Production E) (ev : Event E) : Prop :=
  ∀ k ∈ (step c s ev).engine.q.idleProcs c, k ∈ s.engine.q.idleProcs c ∨ s.adds c ev = some k

instance (c : ℤ) (s : Production E) (ev : Event E) : Decidable (Steady c s ev) := by
  unfold Steady
  infer_instance

/-- at most `b` procs are idle, and a visit under way has not lost count of them -/
structure IdleInv (f : FactorySpec) (c b : ℤ) (s : Production E) : Prop where
  idle : ((s.engine.q.idleProcs c).length : ℤ) ≤ b
  visiting : ∀ v, s.visit = some v → v.maxIdle = f.maxIdle ∧ ((s.engine.q.idleProcs c).length : ℤ) ≤ v.idle

omit [ConfigLib] in
theorem idleProcs_nodup (q : Queue E) (c : ℤ) : (q.idleProcs c).Nodup := q.coll.keys_nodup.filter _

omit [ConfigLib] in
theorem idle_le {q q' : Queue E} {c : ℤ} (h : ∀ k ∈ q'.idleProcs c, k ∈ q.idleProcs c) :
    (q'.idleProcs c).length ≤ (q.idleProcs c).length :=
  ((idleProcs_nodup q' c).subperm h).length_le

omit [ConfigLib] in
theorem idle_le_succ {q q' : Queue E} {c : ℤ} (k₀ : JobKey) (h : ∀ k ∈ q'.idleProcs c, k ∈ q.idleProcs c ∨ k = k₀) :
    (q'.idleProcs c).length ≤ (q.idleProcs c).length + 1 := by
  have hsub : q'.idleProcs c ⊆ k₀ :: q.idleProcs c := by
    intro k hk
    rcases h k hk with h | h
    · exact List.mem_cons_of_mem _ h
    · exact h ▸ List.mem_cons_self
  exact ((idleProcs_nodup q' c).subperm hsub).length_le

variable {s : Production E}

/-- an event that materializes nothing adds no idle proc -/
theorem Steady.idle_le {c : ℤ} {ev : Event E} (h : Steady c s ev) (hadds : s.adds c ev = none) :
    ((step c s ev).engine.q.idleProcs c).length ≤ (s.engine.q.idleProcs c).length := by
  refine Production.idle_le fun k hk => ?_
  rcases h k hk with h | h
  · exact h
  · rw [hadds] at h
    cases h

variable {f : FactorySpec}

/-- the loop continues only below the bound, and then the visit counts the proc it adds -/
theorem advance_idle {c b : ℤ} (hb : f.maxIdle ≤ b) (hmax : 0 ≤ f.maxIdle)
    {w : Engine.World} (hs : Steady c s (.advance w)) (h : IdleInv f c b s) :
    IdleInv f c b (step c s (.advance w)) := by
  obtain ⟨e, _ | v⟩ := s
  · exact h
  obtain ⟨hvm, hcount⟩ := h.visiting v rfl
  have hidle := h.idle
  simp only at hcount hidle
  by_cases hgo : v.next < v.limit ∧ ¬ (0 ≤ v.maxIdle ∧ v.maxIdle ≤ v.idle)
  · -- below the bound: one more idle proc is still within it
    have hroom : v.idle < f.maxIdle := by
      rw [hvm] at hgo
      exact not_le.1 fun hle => hgo.2 ⟨hmax, hle⟩
    have hadd : ((step c ⟨e, some v⟩ (.advance w)).engine.q.idleProcs c).length ≤ (e.q.idleProcs c).length + 1 := by
      refine idle_le_succ ⟨c, v.next⟩ fun k hk => ?_
      rcases hs k hk with hk | hk
      · exact .inl hk
      · simp only [adds, if_pos hgo, Option.some.injEq] at hk
        exact .inr hk.symm
    refine ⟨by omega, fun v' hv' => ?_⟩
    have hv'eq : v'.maxIdle = v.maxIdle ∧ v'.idle = v.idle + 1 := by
      simp only [step, advance, if_pos hgo] at hv'
      split at hv'
      · cases hv'
      · split at hv'
        · cases hv'
        · cases hv'
          exact ⟨rfl, rfl⟩
    refine ⟨hv'eq.1.trans hvm, ?_⟩
    rw [hv'eq.2]
    omega
  · -- the visit ends
    have hend : (step c ⟨e, some v⟩ (.advance w)).visit = none := by simp only [step, advance, if_neg hgo]
    have hle := hs.idle_le (by simp only [adds, if_neg hgo])
    simp only at hle
    refine ⟨by omega, fun v' hv' => ?_⟩
    rw [hend] at hv'
    cases hv'

/-- **The step.** Within the bound `b`, which is at least the idle bound, an event that makes no other proc idle stays
within it. -/
theorem step_idle {c b : ℤ} (hb : f.maxIdle ≤ b) (hmax : 0 ≤ f.maxIdle)
    {ev : Event E} (hi : Inv f c (step c s ev)) (hs : Steady c s ev) (h : IdleInv f c b s) :
    IdleInv f c b (step c s ev) := by
  have hidle := h.idle
  cases ev with
  | advance => exact advance_idle hb hmax hs h
  | visit w =>
    have hle := hs.idle_le rfl
    refine ⟨by omega, fun v hv => ⟨(hi.visiting v hv).2.1, ?_⟩⟩
    simp only [step] at hv hle ⊢
    by_cases hbusy : s.engine.crashed = true ∨ s.visit.isSome = true
    · rw [if_pos hbusy] at hv ⊢
      exact (h.visiting v hv).2
    · rw [if_neg hbusy] at hv ⊢
      -- a visit starts from the count `FactoryInfo` takes
      unfold begin at hv ⊢
      cases hfi : s.engine.q.factoryInfo c with
      | none =>
        rw [hfi] at hv
        cases hv
      | some fi =>
        obtain ⟨-, -, -, -, -, -, -, -, -, -, hcount⟩ := Queue.factoryInfo_some hfi
        rw [hfi] at hv
        dsimp only at hv ⊢
        by_cases hp : fi.paused ≠ 0
        · rw [if_pos hp] at hv
          cases hv
        · rw [if_neg hp] at hv ⊢
          have hq := (Engine.loadFactory_q w s.engine c fi).1
          rcases hload : Engine.loadFactory w s.engine c fi with ⟨_ | _, _⟩
          · rw [hload] at hv
            cases hv
          · rw [hload] at hv hq
            cases hv
            dsimp only at hq ⊢
            rw [hq, hcount, Queue.idle_count]
  | cleanup | edit =>
    have hle := hs.idle_le rfl
    refine ⟨by omega, fun v hv => ⟨(h.visiting v hv).1, ?_⟩⟩
    have := (h.visiting v hv).2
    omega
  | restart =>
    have hle := hs.idle_le rfl
    exact ⟨by omega, fun v hv => by cases hv⟩

/-- the invariants together, along a run in which no other proc becomes idle -/
theorem run_idle (hlt : f.total < 2 ^ 63) {c b : ℤ} (hb : f.maxIdle ≤ b) (hmax : 0 ≤ f.maxIdle)
    (hi : Inv f c s) (h : IdleInv f c b s) {evs : List (Event E)}
    (hevs : Runs.Meets (step c) (fun s ev => Undisturbed f c s ev ∧ Steady c s ev) s evs) :
    IdleInv f c b (evs.foldl (step c) s) := by
  refine (Runs.foldl_inv_of (A := fun s ev => Undisturbed f c s ev ∧ Steady c s ev)
    (P := fun s => Inv f c s ∧ IdleInv f c b s) (fun s ev ha hp => ?_) ⟨hi, h⟩ hevs).2
  have hinv := step_inv hlt ha.1 hp.1
  exact ⟨hinv, step_idle hb hmax hinv ha.2 hp.2⟩

/-- **Exactly-once materialization.** Over every undisturbed history of a factory: the procs committed are 0, 1, …, as
many as the cluster ad says, each once and in this order; proc `p` is made of row `p / N` with step `p % N`; there are
never more than the factory is to produce. From any point between two visits on, as long as no proc becomes idle but
those the engine adds, no more procs are idle than the idle bound allows or than were idle then. -/
theorem materialized_exactly_once (f : FactorySpec) (hlt : f.total < 2 ^ 63) (c : ℤ) (s₀ : Production E)
    (h₀ : Fresh f c s₀) (evs : List (Event E)) (hevs : Runs.Meets (step c) (Undisturbed f c) s₀ evs) :
    let s := evs.foldl (step c) s₀
    s.engine.made.map (·.proc) = (List.range s.engine.made.length).map Int.ofNat ∧
      (∀ ad, s.engine.q.coll.lookup (clusterKey c) = some ad →
        intAttr ad .jobMaterializeNextProcId 0 = s.engine.made.length) ∧
      (∀ m ∈ s.engine.made, f.Expands c m) ∧
      (s.engine.made.length : ℤ) ≤ (if 0 < f.limit then min f.total f.limit else f.total) ∧
      (0 ≤ f.maxIdle → s.visit = none → ∀ later : List (Event E),
        Runs.Meets (step c) (fun s ev => Undisturbed f c s ev ∧ Steady c s ev) s later →
          (((later.foldl (step c) s).engine.q.clusterStatusCounts c).idle : ℤ) ≤
            max f.maxIdle (s.engine.q.clusterStatusCounts c).idle) := by
  intro s
  have hinv : Inv f c s := run_inv hlt h₀.inv hevs
  refine ⟨hinv.procs, fun ad hl => ?_, hinv.made, hinv.bounded, fun hmax hrest later hlater => ?_⟩
  · exact (hinv.stored ad hl).2 ad fun _ _ => rfl
  · have hstart : IdleInv f c (max f.maxIdle (s.engine.q.clusterStatusCounts c).idle) s := by
      refine ⟨?_, fun v hv => ?_⟩
      · rw [Queue.idle_count]
        exact le_max_right _ _
      · rw [hrest] at hv
        cases hv
    rw [Queue.idle_count (later.foldl (step c) s).engine.q]
    exact (run_idle hlt (le_max_left _ _) hmax hinv hstart hlater).idle

end Production

end

/-! ## A factory with item data -/

/-- alice's factory: two procs for each of two rows, at most two idle -/
def itemsFactory : Queue Value :=
  let s := Txn.session (Queue.openNew poolOptions) "alice@pool" [.newCluster none,
    .setAttribute (clusterKey 1) "JobMaterializeDigestFile" "\"/spool/1/d\"",
    .setAttribute (clusterKey 1) "JobMaterializeItemsFile" "\"/spool/1/i\"",
    .setAttribute (clusterKey 1) "JobMaterializeMaxIdle" "2"]
  (Txn.commit s.1 s.2 100 none).2.1

def itemsDigest : String := "executable=/bin/sleep\nqueue 2\n"

/-- its files; with `full` the disk has no room for a proc -/
def itemsWorld (full : Bool) : Engine.World where
  file := fun path => if path = "/spool/1/d" then .ok itemsDigest else if path = "/spool/1/i" then .ok "a\nb\n"
    else .notExist
  now := 101
  updErr := fun _ => if full then some "no space left on device" else none
  pauseWritten := true

def itemsSpec : FactorySpec where
  digestFile := "/spool/1/d"
  itemsFile := "/spool/1/i"
  limit := -1
  maxIdle := 2
  digest := (parseDigest itemsDigest).toOption.get (by decide +kernel)
  rows := ["a", "b"]

namespace Production

def itemsStart : Production Value := ⟨⟨itemsFactory, ∅, [], [], false⟩, none⟩

/-- the first visit, up to the idle bound -/
def itemsFirst : Production Value :=
  [Event.visit (itemsWorld false), .advance (itemsWorld false), .advance (itemsWorld false),
    .advance (itemsWorld false)].foldl (step 1) itemsStart

/-- proc 0 leaves the queue after the first visit, the schedd restarts, the next proc cannot be written, then it can -/
def itemsHistory : List (Event Value) :=
  [.visit (itemsWorld false), .advance (itemsWorld false), .advance (itemsWorld false), .advance (itemsWorld false),
    .edit { itemsFirst.engine.q with coll := itemsFirst.engine.q.coll.delete ⟨1, 0⟩ }, .restart poolOptions,
    .visit (itemsWorld true), .advance (itemsWorld true), .visit (itemsWorld false), .advance (itemsWorld false)]

theorem itemsSpec_readable (full : Bool) : itemsSpec.Readable (itemsWorld full) := by
  have hget : ∀ (x : Except String Digest) (h : x.toOption.isSome = true), x = .ok (x.toOption.get h) := by
    intro x h
    cases x with
    | error => cases h
    | ok => rfl
  refine ⟨itemsDigest, rfl, hget _ (by decide +kernel), ?_⟩
  cases full <;> decide +kernel

theorem itemsStart_fresh : Fresh itemsSpec 1 itemsStart where
  stored := by
    intro ad hl
    have hattrs : (itemsFactory.coll.lookup (clusterKey 1)).all (fun ad =>
        ad .jobMaterializeDigestFile = some (.str "/spool/1/d") && ad .jobMaterializeItemsFile =
          some (.str "/spool/1/i") &&
          ad .jobMaterializeLimit = none && ad .jobMaterializeMaxIdle = some (.int 2) &&
          ad .jobMaterializeNextProcId = none) = true := by
      decide +kernel
    have hl' : itemsFactory.coll.lookup (clusterKey 1) = some ad := hl
    rw [hl'] at hattrs
    simp only [Option.all_some, Bool.and_eq_true, decide_eq_true_eq] at hattrs
    obtain ⟨⟨⟨⟨hd, hi⟩, hlim⟩, hmax⟩, hnext⟩ := hattrs
    refine ⟨fun ad' h' => ⟨?_, ?_, ?_, ?_⟩, fun ad' h' => ?_⟩
    · exact Ad.evaluateAttrString_lit ((h' _ (by decide)).trans hd)
    · rw [Ad.evaluateAttrString_lit ((h' _ (by decide)).trans hi)]
      rfl
    · simp [intAttr, Ad.evaluateAttrInt, Ad.evaluateAttr, h' .jobMaterializeLimit (by decide), hlim, itemsSpec]
    · rw [intAttr, Ad.evaluateAttrInt_lit ((h' _ (by decide)).trans hmax)]
      rfl
    · simp [intAttr, Ad.evaluateAttrInt, Ad.evaluateAttr, h' .jobMaterializeNextProcId (by decide), hnext]
  made := rfl
  cache := rfl
  visit := rfl

theorem itemsHistory_undisturbed : Runs.Meets (step 1) (Undisturbed itemsSpec 1) itemsStart itemsHistory := by
  refine ⟨.inr (itemsSpec_readable false), trivial, trivial, trivial, fun ad hl => ⟨ad, ?_, fun _ _ => rfl⟩, trivial,
    .inr (itemsSpec_readable true), trivial, .inr (itemsSpec_readable false), trivial, trivial⟩
  -- removing a proc leaves the cluster ad
  rw [Store.lookup_delete, if_neg (by decide)] at hl
  exact hl

/-- procs 0, 1 and 2, of the rows a, a and b, each once -/
theorem materialized_exactly_once_items :
    (itemsHistory.foldl (step 1) itemsStart).engine.made.map (fun m => (m.proc, m.rawRow)) =
        [(0, "a"), (1, "a"), (2, "b")] ∧
      ∀ m ∈ (itemsHistory.foldl (step 1) itemsStart).engine.made, itemsSpec.Expands 1 m :=
  ⟨by decide +kernel,
    (materialized_exactly_once itemsSpec (by decide +kernel) 1 itemsStart itemsStart_fresh itemsHistory
      itemsHistory_undisturbed).2.2.1⟩

end Production

end AccessPoint
