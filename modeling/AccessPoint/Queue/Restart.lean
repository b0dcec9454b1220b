/-
Cluster ids across restarts (`Open` and `allocClusterID` of internal/queue/queue.go).

The life of a spool directory: the schedd runs (`Sys`), stops at any point and opens the directory again. What a write
that returned has stored survives; transactions and the copies of internal writers do not. A crash inside a commit
leaves some of its writes, a crash inside `NewCluster` may leave the counter advanced without the id having been
returned.

- `alloc_inv`: the invariant, kept by every event in which clients only name clusters that were allocated.
- `clusterIds_allocated`: then every stored key belongs to an id that `NewCluster` returned earlier, and `NewCluster`
  never returns an id twice nor one under which an ad is stored.
- `unallocated_cluster_stored`: `SetAttribute` accepts any cluster number, so without that condition both fail.
-/
import AccessPoint.Queue.CommitCrash

namespace AccessPoint

open ClassAdLib KeyMap

variable {E : Type} [ClassAdLib E]

namespace Queue

/-- the next cluster id `Open` finds: the persisted one, at least 1 -/
def recoveredID : Option ℤ → ℤ
  | some v => if 1 < v then v else 1
  | none => 1

/-- `Open` on a spool directory that holds the ads `coll`, the counter and the history -/
def openOn (opts : Options) (coll : Store E) (counter : Option ℤ) (hist : List (Ad E)) : Queue E :=
  let q := { (openNew opts : Queue E) with
    coll := coll, counter := counter, hist := hist, nextID := recoveredID counter }
  { q with factories := q.recoverFactories }

end Queue

/-! ## The machine -/

/-- the running schedd and the ids `NewCluster` has returned so far, in all incarnations, newest first -/
structure Life (E : Type) where
  sys : Sys E
  issued : List ℤ

namespace Life

inductive Event (E : Type) where
  | run (ev : Sys.Event E)
  /-- the schedd stops between two writes and is started again -/
  | restart (opts : Options)
  /-- it stops inside the commit of a connection, after `n` writes of which the deletions are those of `gone` -/
  | restartInCommit (conn : ℕ) (now : ℤ) (updErr : Option String) (gone : List JobKey) (n : ℕ) (opts : Options)
  /-- it stops inside `NewCluster`, the counter already written -/
  | restartInAlloc (opts : Options)

def init (opts : Options) : Life E := ⟨Sys.init opts, []⟩

/-- the id `NewCluster` returns in this event -/
def returned (l : Life E) : Event E → Option ℤ
  | .run (.request conn (.newCluster putErr)) =>
    match l.sys.txns.lookup conn with
    | none => none
    | some t =>
      match Txn.newCluster l.sys.q t putErr with
      | (.ok (id, _), _) => some id
      | (.error _, _) => none
  | _ => none

/-- the schedd after a restart on what is stored -/
def reopened (opts : Options) (coll : Store E) (counter : Option ℤ) (hist : List (Ad E)) : Sys E :=
  ⟨Queue.openOn opts coll counter hist, ∅, []⟩

def step (l : Life E) (ev : Event E) : Life E where
  sys :=
    match ev with
    | .run ev => l.sys.step ev
    | .restart opts => reopened opts l.sys.q.coll l.sys.q.counter l.sys.q.hist
    | .restartInCommit conn now updErr gone n opts =>
      let coll := match l.sys.txns.lookup conn with
        | none => l.sys.q.coll
        | some t => Txn.crashAfter l.sys.q t now updErr (gone.filter (· ∈ t.destroyed)) n
      reopened opts coll l.sys.q.counter l.sys.q.hist
    | .restartInAlloc opts => reopened opts l.sys.q.coll (some (l.sys.q.nextID + 1)) l.sys.q.hist
  issued := (l.returned ev).toList ++ l.issued

/-- clients only name clusters that were allocated: `SetAttribute` an id some `NewCluster` has returned, `NewProc` not
the -1 that stands for no active cluster -/
def Allocating (l : Life E) : Event E → Prop
  | .run (.request _ (.setAttribute k _ _)) => k.cluster ∈ l.issued
  | .run (.request _ (.newProc c)) => c ≠ -1
  | _ => True

instance (l : Life E) (ev : Event E) : Decidable (l.Allocating ev) := by
  unfold Allocating
  split <;> infer_instance

/-! ## The invariant -/

/-- every place a key can come from holds allocated clusters only, and the counter is ahead of them -/
structure Inv (l : Life E) : Prop where
  stored : ∀ k ∈ l.sys.q.coll, k.cluster ∈ l.issued
  copied : ∀ k ad, (k, ad) ∈ l.sys.copies → k.cluster ∈ l.issued
  staged : ∀ conn t, l.sys.txns.lookup conn = some t →
    (∀ k ∈ t.pending, k.cluster ∈ l.issued) ∧ (t.active = -1 ∨ t.active ∈ l.issued)
  range : ∀ c ∈ l.issued, 1 ≤ c ∧ c < l.sys.q.nextID
  counter : l.sys.q.nextID = Queue.recoveredID l.sys.q.counter

theorem recoveredID_pos (counter : Option ℤ) : 1 ≤ Queue.recoveredID counter := by
  unfold Queue.recoveredID
  split
  · split_ifs <;> omega
  · exact le_refl 1

theorem recoveredID_next {n : ℤ} (h : 1 ≤ n) : Queue.recoveredID (some (n + 1)) = n + 1 := if_pos (by omega)

theorem init_inv (opts : Options) : Inv (init opts : Life E) where
  stored := fun k hk => by simp [init, Sys.init, Queue.openNew] at hk
  copied := fun k ad h => by simp [init, Sys.init] at h
  staged := fun conn t h => by simp [init, Sys.init] at h
  range := fun c hc => by simp [init] at hc
  counter := rfl

variable {l : Life E} {coll : Store E}

omit [ClassAdLib E] in
/-- the store may lose keys and gain some of allocated clusters -/
theorem Inv.store (h : Inv l)
    (hc : ∀ k ∈ coll, k ∈ l.sys.q.coll ∨ k.cluster ∈ l.issued) : ∀ k ∈ coll, k.cluster ∈ l.issued := by
  intro k hk
  rcases hc k hk with hk | hk
  · exact h.stored k hk
  · exact hk

variable {t : Txn E} {q : Queue E} {k : JobKey} {now : ℤ}

/-- the keys a commit leaves, wherever it stops: those that were there and those of staged clusters -/
theorem batch_keys {ad : Ad E} (h : ((Txn.commitBatch q t now).lookup k).or (q.coll.lookup k) = some ad) :
    k ∈ q.coll ∨ ∃ k' ∈ t.pending, k'.cluster = k.cluster := by
  cases hb : (Txn.commitBatch q t now).lookup k with
  | none =>
    rw [hb, Option.none_or] at h
    exact .inl ((mem_iff_lookup _ _).2 ⟨ad, h⟩)
  | some =>
    right
    rw [Txn.commitBatch_lookup] at hb
    split_ifs at hb
    obtain ⟨_, hs, -⟩ := Option.map_eq_some_iff.1 hb
    by_contra hno
    have htouch : t.touches k.cluster = false := by
      by_contra htrue
      exact hno ((Txn.touches_iff t k.cluster).1 (by simpa using htrue))
    rw [Txn.stagedAtCommit_untouched htouch] at hs
    cases hs

variable {updErr : Option String}

theorem commit_keys
    (h : k ∈ (Txn.commit q t now updErr).2.1.coll) : k ∈ q.coll ∨ ∃ k' ∈ t.pending, k'.cluster = k.cluster := by
  obtain ⟨_, hl⟩ := (mem_iff_lookup _ _).1 h
  cases he : Txn.commitError q t now updErr with
  | some =>
    left
    have hq : (Txn.commit q t now updErr).2.1 = q := by simp [Txn.commit, he]
    rwa [hq] at h
  | none =>
    rw [Txn.commit_lookup he] at hl
    split_ifs at hl
    exact batch_keys hl

theorem crashAfter_keys {order : List JobKey} {n : ℕ} (h : k ∈ Txn.crashAfter q t now updErr order n) :
    k ∈ q.coll ∨ ∃ k' ∈ t.pending, k'.cluster = k.cluster := by
  cases he : Txn.commitError q t now updErr with
  | some =>
    left
    simpa [Txn.crashAfter, Txn.commitWrites, he] using h
  | none =>
    rcases Txn.crashAfter_lookup order n he with hz | ⟨m, hm⟩
    · rw [hz] at h
      exact .inl h
    · obtain ⟨_, hl⟩ := (mem_iff_lookup _ _).1 h
      rw [hm] at hl
      split_ifs at hl
      exact batch_keys hl

variable {conn : ℕ}

omit [ClassAdLib E] in
/-- what is staged on a connection can be stored -/
theorem Inv.committed (h : Inv l) (ht : l.sys.txns.lookup conn = some t)
    (hc : ∀ k ∈ coll, k ∈ l.sys.q.coll ∨ ∃ k' ∈ t.pending, k'.cluster = k.cluster) :
    ∀ k ∈ coll, k.cluster ∈ l.issued := by
  refine h.store fun k hk => ?_
  rcases hc k hk with hk | ⟨k', hk', he⟩
  · exact .inl hk
  · exact .inr (he ▸ (h.staged conn t ht).1 k' hk')

/-- a restart loses the transactions and the copies and finds the counter again -/
theorem Inv.reopen (h : Inv l) (opts : Options) {counter : Option ℤ} {hist : List (Ad E)}
    (hcoll : ∀ k ∈ coll, k.cluster ∈ l.issued) (hnext : l.sys.q.nextID ≤ Queue.recoveredID counter) :
    Inv (⟨reopened opts coll counter hist, l.issued⟩ : Life E) where
  stored := hcoll
  copied := fun k ad hm => by simp [reopened] at hm
  staged := fun conn t ht => by simp [reopened] at ht
  range := fun c hc => ⟨(h.range c hc).1, lt_of_lt_of_le (h.range c hc).2 hnext⟩
  counter := rfl

omit [ClassAdLib E] in
/-- one of the events that neither allocate nor touch a transaction -/
theorem Inv.frame (h : Inv l) {sys : Sys E} (hcoll : ∀ k ∈ sys.q.coll, k.cluster ∈ l.issued)
    (hcopies : ∀ k ad, (k, ad) ∈ sys.copies → k.cluster ∈ l.issued) (htxns : sys.txns = l.sys.txns)
    (hnext : sys.q.nextID = l.sys.q.nextID) (hcounter : sys.q.counter = l.sys.q.counter) :
    Inv (⟨sys, l.issued⟩ : Life E) where
  stored := hcoll
  copied := hcopies
  staged := fun conn t ht => h.staged conn t (htxns ▸ ht)
  range := fun c hc => hnext ▸ h.range c hc
  counter := by rw [hnext, hcounter]; exact h.counter

/-- a request on an open transaction: only an accepted `NewCluster` moves the counter, and it returns the id it takes -/
theorem request_alloc (l : Life E) (conn : ℕ) (ht : l.sys.txns.lookup conn = some t) (op : Txn.Op) :
    (l.returned (.run (.request conn op)) = none ∧ (Txn.step (l.sys.q, t) op).1.nextID = l.sys.q.nextID ∧
        (Txn.step (l.sys.q, t) op).1.counter = l.sys.q.counter ∧
        ((Txn.step (l.sys.q, t) op).2 = t ∨ op ≠ .newCluster none)) ∨
      (op = .newCluster none ∧ l.returned (.run (.request conn op)) = some l.sys.q.nextID ∧
        (Txn.step (l.sys.q, t) op).1.nextID = l.sys.q.nextID + 1 ∧
        (Txn.step (l.sys.q, t) op).1.counter = some (l.sys.q.nextID + 1)) := by
  cases op with
  | newCluster putErr =>
    simp only [returned, ht, Txn.step, Txn.newCluster]
    by_cases ha : t.anonymous = true
    · simp [ha]
    · cases putErr with
      | some | none => simp [ha, Queue.allocClusterID]
  | newProc | setEffectiveOwner =>
    left
    refine ⟨rfl, ?_, ?_, .inr (by simp)⟩ <;> simp only [Txn.step] <;> split <;> rfl
  | _ => exact .inl ⟨rfl, rfl, rfl, .inr (by simp)⟩

omit [ClassAdLib E] in
/-- with one more id issued everything that was allocated still is -/
theorem Inv.grown (h : Inv l) (new : List ℤ) :
    (∀ k ∈ l.sys.q.coll, k.cluster ∈ new ++ l.issued) ∧
      (∀ k ad, (k, ad) ∈ l.sys.copies → k.cluster ∈ new ++ l.issued) ∧
      (∀ conn' t', l.sys.txns.lookup conn' = some t' →
        (∀ k ∈ t'.pending, k.cluster ∈ new ++ l.issued) ∧ (t'.active = -1 ∨ t'.active ∈ new ++ l.issued)) := by
  refine ⟨fun k hk => List.mem_append_right _ (h.stored k hk), fun k ad hm =>
    List.mem_append_right _ (h.copied k ad hm), fun conn' t' ht' => ?_⟩
  obtain ⟨hp, hact⟩ := h.staged conn' t' ht'
  exact ⟨fun k hk => List.mem_append_right _ (hp k hk), hact.imp_right (List.mem_append_right _)⟩

/-- a request keeps the staged keys of its connection allocated -/
theorem request_staged (h : Inv l) (ht : l.sys.txns.lookup conn = some t) {op : Txn.Op}
    (ha : l.Allocating (.run (.request conn op))) {issued : List ℤ} (hsub : ∀ c ∈ l.issued, c ∈ issued)
    (hnew : op = .newCluster none → (Txn.step (l.sys.q, t) op).2 = t ∨ l.sys.q.nextID ∈ issued) :
    (∀ k ∈ (Txn.step (l.sys.q, t) op).2.pending, k.cluster ∈ issued) ∧
      ((Txn.step (l.sys.q, t) op).2.active = -1 ∨ (Txn.step (l.sys.q, t) op).2.active ∈ issued) := by
  obtain ⟨hp, hact⟩ := h.staged conn t ht
  have heff := Txn.step_effect (l.sys.q, t) op
  constructor
  · intro k hk
    rcases heff.staged_key hk with hk' | ⟨hop, rfl⟩ | ⟨p, rfl, rfl⟩ | ⟨name, value, rfl⟩
    · exact hsub _ (hp k hk')
    · rcases hnew hop with hsame | hin
      · rw [hsame] at hk
        exact hsub _ (hp _ hk)
      · exact hin
    · exact hsub _ (hact.resolve_left ha)
    · exact hsub _ ha
  · rcases heff.active with hsame | ⟨hop, hid⟩
    · rw [hsame]
      exact hact.imp_right (hsub _)
    · rcases hnew hop with hsame | hin
      · rw [hsame]
        exact hact.imp_right (hsub _)
      · rw [hid]
        exact .inr hin

theorem request_inv (h : Inv l) {op : Txn.Op} (ha : l.Allocating (.run (.request conn op))) :
    Inv (l.step (.run (.request conn op))) := by
  cases ht : l.sys.txns.lookup conn with
  | none =>
    have hret : l.returned (.run (.request conn op)) = none := by
      cases op <;> simp [returned, ht]
    have hstep : l.step (.run (.request conn op)) = l := by
      simp [step, Sys.step, ht, hret]
    rw [hstep]
    exact h
  | some t =>
    have hbase := Txn.step_base (l.sys.q, t) op
    have hstep : l.step (.run (.request conn op)) =
        ⟨⟨(Txn.step (l.sys.q, t) op).1, l.sys.txns.insert conn (Txn.step (l.sys.q, t) op).2, l.sys.copies⟩,
          (l.returned (.run (.request conn op))).toList ++ l.issued⟩ := by
      simp [step, Sys.step, ht]
    rw [hstep]
    obtain ⟨hst, hcp, htx⟩ := h.grown (l.returned (.run (.request conn op))).toList
    have hsub : ∀ c ∈ l.issued, c ∈ (l.returned (.run (.request conn op))).toList ++ l.issued :=
      fun c hc => List.mem_append_right _ hc
    have hnew : op = .newCluster none → (Txn.step (l.sys.q, t) op).2 = t ∨
        l.sys.q.nextID ∈ (l.returned (.run (.request conn op))).toList ++ l.issued := by
      intro hop
      rcases request_alloc l conn ht op with ⟨-, -, -, hsame⟩ | ⟨-, hret, -, -⟩
      · exact .inl (hsame.resolve_right fun hne => hne hop)
      · exact .inr (by simp [hret])
    have hreq := request_staged h ht ha hsub hnew
    refine ⟨fun k hk => hst k (hbase.coll ▸ hk), hcp, fun conn' t' ht' => ?_, ?_, ?_⟩
    · simp only [lookup_insert_ite] at ht'
      split_ifs at ht'
      · cases ht'
        exact hreq
      · exact htx conn' t' ht'
    · intro c hc
      rcases request_alloc l conn ht op with ⟨hret, hnext, -⟩ | ⟨-, hret, hnext, -⟩
      · rw [hret] at hc
        show 1 ≤ c ∧ c < (Txn.step (l.sys.q, t) op).1.nextID
        rw [hnext]
        exact h.range c hc
      · show 1 ≤ c ∧ c < (Txn.step (l.sys.q, t) op).1.nextID
        rw [hnext]
        have hpos : 1 ≤ l.sys.q.nextID := h.counter ▸ recoveredID_pos _
        rw [hret] at hc
        rcases List.mem_cons.1 hc with rfl | hc
        · omega
        · have := h.range c hc
          omega
    · show (Txn.step (l.sys.q, t) op).1.nextID = Queue.recoveredID (Txn.step (l.sys.q, t) op).1.counter
      rcases request_alloc l conn ht op with ⟨-, hnext, hcounter, -⟩ | ⟨-, -, hnext, hcounter⟩
      · rw [hnext, hcounter]
        exact h.counter
      · rw [hnext, hcounter, recoveredID_next (h.counter ▸ recoveredID_pos _)]

theorem commit_counter (q : Queue E) (t : Txn E) (now : ℤ) (updErr : Option String) :
    (Txn.commit q t now updErr).2.1.nextID = q.nextID ∧ (Txn.commit q t now updErr).2.1.counter = q.counter := by
  unfold Txn.commit
  cases Txn.commitError q t now updErr <;> exact ⟨rfl, rfl⟩

/-- **The step.** An event in which clients name allocated clusters only keeps the invariant. -/
theorem alloc_inv {ev : Event E} (ha : l.Allocating ev) (h : Inv l) : Inv (l.step ev) := by
  cases ev with
  | restart opts => exact h.reopen opts h.stored h.counter.le
  | restartInCommit conn now updErr gone n opts =>
    refine h.reopen opts ?_ h.counter.le
    cases ht : l.sys.txns.lookup conn with
    | none => exact h.stored
    | some => exact h.committed ht fun k hk => crashAfter_keys hk
  | restartInAlloc opts =>
    have hpos : 1 ≤ l.sys.q.nextID := h.counter ▸ recoveredID_pos _
    refine h.reopen opts h.stored ?_
    rw [recoveredID_next hpos]
    omega
  | run ev =>
    cases ev with
    | begin =>
      refine ⟨h.stored, h.copied, fun conn' t ht => ?_, h.range, h.counter⟩
      simp only [step, Sys.step, lookup_insert_ite] at ht
      split_ifs at ht with hc
      · cases ht
        exact ⟨fun k hk => by simp [Txn.begin] at hk, .inl rfl⟩
      · exact h.staged conn' t ht
    | request => exact request_inv h ha
    | commit conn now updErr =>
      cases ht : l.sys.txns.lookup conn with
      | none =>
        have hstep : l.step (.run (.commit conn now updErr)) = l := by simp [step, Sys.step, ht, returned]
        rw [hstep]
        exact h
      | some t =>
        have hstep : l.step (.run (.commit conn now updErr)) =
            ⟨⟨(Txn.commit l.sys.q t now updErr).2.1, l.sys.txns.erase conn, l.sys.copies⟩, l.issued⟩ := by
          simp [step, Sys.step, ht, returned]
        rw [hstep]
        have hsame := commit_counter l.sys.q t now updErr
        refine ⟨h.committed ht fun k hk => commit_keys hk, h.copied, fun conn' t' ht' => ?_, fun c hc => ?_, ?_⟩
        · exact h.staged conn' t' (lookup_of_erase ht')
        · show 1 ≤ c ∧ c < (Txn.commit l.sys.q t now updErr).2.1.nextID
          rw [hsame.1]
          exact h.range c hc
        · show (Txn.commit l.sys.q t now updErr).2.1.nextID = _
          rw [hsame.1, hsame.2]
          exact h.counter
    | abort =>
      refine ⟨h.stored, h.copied, fun conn' t ht => ?_, h.range, h.counter⟩
      exact h.staged conn' t (lookup_of_erase ht)
    | setAuthz | archive | unnoteFactory => exact ⟨h.stored, h.copied, h.staged, h.range, h.counter⟩
    | read =>
      refine h.frame ?_ ?_ ?_ ?_ ?_ <;> simp only [Sys.step] <;> split
      · exact h.stored
      · exact h.stored
      · exact h.copied
      · rename_i ad hg
        intro k' ad' hm
        rcases List.mem_append.1 hm with hm | hm
        · exact h.copied k' ad' hm
        · simp only [List.mem_singleton, Prod.mk.injEq] at hm
          obtain ⟨rfl, rfl⟩ := hm
          obtain ⟨own, hl, -⟩ := Store.get_eq_some.1 hg
          exact h.stored k' ((mem_iff_lookup _ _).2 ⟨own, hl⟩)
      all_goals rfl
    | write =>
      refine h.frame ?_ ?_ ?_ ?_ ?_ <;> simp only [Sys.step] <;> split
      · exact h.stored
      · rename_i k ad hi
        intro k' hk'
        rcases (AList.mem_insert _).1 hk' with rfl | hk'
        · exact h.copied k' ad (List.mem_of_getElem? hi)
        · exact h.stored k' hk'
      · exact h.copied
      · exact h.copied
      all_goals rfl
    | materialize =>
      refine h.frame ?_ ?_ ?_ ?_ ?_ <;> simp only [Sys.step] <;> split
      · exact h.stored
      · rename_i k ad hi
        have hcl := h.copied k ad (List.mem_of_getElem? hi)
        intro k' hk'
        rcases (AList.mem_insert _).1 hk' with rfl | hk'
        · exact hcl
        · rcases (AList.mem_insert _).1 hk' with rfl | hk'
          · exact hcl
          · exact h.stored k' hk'
      · exact h.copied
      · exact h.copied
      all_goals rfl
    | delete =>
      refine ⟨fun k' hk' => h.stored k' (AList.mem_erase.1 hk').2, h.copied, h.staged, h.range, h.counter⟩

theorem run_inv (opts : Options) {evs : List (Event E)} (h : Runs.Meets step Allocating (init opts) evs) :
    Inv (evs.foldl step (init opts)) :=
  Runs.foldl_inv_of (fun _ _ ha hl => alloc_inv ha hl) (init_inv opts) h

/-- the id a `NewCluster` returns is the next one -/
theorem returned_eq {ev : Event E} {id : ℤ} (h : l.returned ev = some id) : id = l.sys.q.nextID := by
  unfold returned at h
  split at h
  · rename_i conn putErr
    cases ht : l.sys.txns.lookup conn with
    | none => simp [ht] at h
    | some =>
      rcases request_alloc l conn ht (.newCluster putErr) with ⟨hret, -⟩ | ⟨-, hret, -⟩
      · simp only [returned, ht] at hret h
        rw [hret] at h
        cases h
      · simp only [returned, ht] at hret h
        exact Option.some.inj (h.symm.trans hret)
  · cases h

/-- **Only allocated ids exist, and cluster ids are fresh.** In every run in which clients name allocated clusters only,
with any number of transactions, materializations and restarts: a stored key belongs to a cluster id that `NewCluster`
returned earlier, and the next `NewCluster` returns an id that it never returned and under which nothing is stored. -/
theorem clusterIds_allocated (opts : Options) (evs : List (Event E))
    (h : Runs.Meets step Allocating (init opts) evs) :
    (∀ k ∈ (evs.foldl step (init opts)).sys.q.coll, -1 ≤ k.proc →
        1 ≤ k.cluster ∧ k.cluster ∈ (evs.foldl step (init opts)).issued) ∧
      ∀ ev id, (evs.foldl step (init opts)).returned ev = some id →
        id ∉ (evs.foldl step (init opts)).issued ∧
          ∀ k ∈ (evs.foldl step (init opts)).sys.q.coll, k.cluster ≠ id := by
  have hinv := run_inv opts h
  generalize evs.foldl step (init opts) = l at hinv
  have hfresh : ∀ ev id, l.returned ev = some id → id ∉ l.issued := by
    intro ev id hret hin
    have := (hinv.range id hin).2
    rw [returned_eq hret] at this
    omega
  refine ⟨fun k hk _ => ?_, fun ev id hret => ⟨hfresh ev id hret, fun k hk he => ?_⟩⟩
  · have hin := hinv.stored k hk
    exact ⟨(hinv.range _ hin).1, hin⟩
  · exact hfresh ev id hret (he ▸ hinv.stored k hk)

end Life

/-! ## Runs -/

/-- alice submits cluster 1; the schedd crashes inside the commit of the next transaction and comes back -/
def submitAndRestart : List (Life.Event Value) :=
  aliceSubmits.map .run ++ [.run (.begin 1 "alice@pool"), .run (.request 1 (.newCluster none)),
    .restartInCommit 1 200 none [] 1 poolOptions, .run (.begin 2 "alice@pool")]

theorem clusterIds_allocated_restart :
    (∀ k ∈ (submitAndRestart.foldl Life.step (Life.init poolOptions)).sys.q.coll, -1 ≤ k.proc →
        1 ≤ k.cluster ∧ k.cluster ∈ (submitAndRestart.foldl Life.step (Life.init poolOptions)).issued) ∧
      (submitAndRestart.foldl Life.step (Life.init poolOptions)).issued = [2, 1] ∧
      (submitAndRestart.foldl Life.step (Life.init poolOptions)).returned (.run (.request 2 (.newCluster none))) =
        some 3 :=
  ⟨(Life.clusterIds_allocated poolOptions submitAndRestart (by decide +kernel)).1, by decide +kernel, by decide +kernel⟩

/-- alice stores an attribute of a job 2.0 that nobody submitted, then allocates a cluster -/
def strayCluster : List (Life.Event Value) :=
  [.run (.begin 0 "alice@pool"), .run (.request 0 (.setAttribute ⟨2, 0⟩ "Cmd" "\"/bin/true\"")),
    .run (.commit 0 100 none), .run (.begin 1 "alice@pool"), .run (.request 1 (.newCluster none))]

/-- **A job of a cluster that was never allocated.** 2.0 and its cluster ad are stored although the only id returned so
far is 1, and the next `NewCluster` returns 2. -/
theorem unallocated_cluster_stored :
    (strayCluster.foldl Life.step (Life.init poolOptions)).sys.q.coll.keys = [⟨2, -1⟩, ⟨2, 0⟩] ∧
      (strayCluster.foldl Life.step (Life.init poolOptions)).issued = [1] ∧
      (strayCluster.foldl Life.step (Life.init poolOptions)).returned (.run (.request 1 (.newCluster none))) =
        some 2 := by
  decide +kernel

end AccessPoint
