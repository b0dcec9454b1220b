/-
A crash in the middle of a commit (internal/queue/txn.go, `Txn.Commit`).

`Commit` writes its batch with one `Update` and then deletes the destroyed keys one `Delete` at a time, in whatever
order the map of destroyed keys is iterated. Every write is atomic; a crash keeps a prefix of them (`crashAfter`).

- `commit_runs_writes`: without a crash the writes lead to the store of `committed`.
- `commit_error_iff`: a commit reports an error exactly when it stops before its first write.
- `commit_atomic_iff`: the store a crash leaves is always the old or the new one exactly when the commit has at most one
  write that changes something.
- `destroyCluster_torn`: destroying a cluster of one job has two such writes, and the crash between them leaves a proc
  ad without its cluster ad.
-/
import AccessPoint.Queue.System

namespace AccessPoint

open List KeyMap

namespace Txn

variable {E : Type}

/-! ## The writes of a commit -/

/-- one atomic write to the collection -/
inductive Write (E : Type) where
  | update (batch : KeyMap JobKey (Ad E))
  | delete (k : JobKey)

def Write.apply (s : Store E) : Write E → Store E
  | .update batch => s.update batch
  | .delete k => s.delete k

/-- `order` is an iteration over the map of destroyed keys: each of them once -/
structure Iterates (t : Txn E) (order : List JobKey) : Prop where
  nodup : order.Nodup
  mem : ∀ k, k ∈ order ↔ k ∈ t.destroyed

variable [ClassAdLib E]

/-- the writes of a commit, in order; one that is refused makes none -/
def commitWrites (q : Queue E) (t : Txn E) (now : ℤ) (updErr : Option String) (order : List JobKey) : List (Write E) :=
  match commitError q t now updErr with
  | some _ => []
  | none =>
    let batch := commitBatch q t now
    (if batch.keys = [] then [] else [.update batch]) ++ order.map .delete

/-- the store recovered when the crash comes after `n` writes -/
def crashAfter (q : Queue E) (t : Txn E) (now : ℤ) (updErr : Option String) (order : List JobKey) (n : ℕ) : Store E :=
  ((commitWrites q t now updErr order).take n).foldl Write.apply q.coll

/-- the two stores hold the same ads -/
def SameAds (s s' : Store E) : Prop := ∀ k, s.lookup k = s'.lookup k

omit [ClassAdLib E] in
theorem foldl_delete (ks : List JobKey) (s : Store E) (k : JobKey) :
    ((ks.map Write.delete).foldl Write.apply s).lookup k = if k ∈ ks then none else s.lookup k := by
  have h : (ks.map Write.delete).foldl Write.apply s = eraseAll s ks := by
    rw [foldl_map]
    rfl
  rw [h, lookup_eraseAll]

variable (q : Queue E)

/-- a key that is staged and not destroyed is in the batch, and no other key is -/
theorem commitBatch_keys_nil (t : Txn E) (now : ℤ) :
    (commitBatch q t now).keys = [] ↔ ∀ k ad, stagedAtCommit t k = some ad → k ∈ t.destroyed := by
  rw [eq_nil_iff_forall_not_mem]
  constructor
  · intro h k ad hs
    by_contra hd
    refine h k (AList.mem_keys.1 ((mem_iff_lookup _ _).2 ⟨materialize q t ad k now, ?_⟩))
    rw [commitBatch_lookup, if_neg hd, hs]
    rfl
  · intro h k hk
    obtain ⟨_, hl⟩ := (mem_iff_lookup _ _).1 (AList.mem_keys.2 hk)
    rw [commitBatch_lookup] at hl
    split_ifs at hl with hd
    obtain ⟨ad', hs, -⟩ := Option.map_eq_some_iff.1 hl
    exact hd (h k ad' hs)

/-- the store once the batch is written; writing an empty batch and writing none are the same -/
theorem batch_lookup (t : Txn E) (now : ℤ) (k : JobKey) :
    ((if (commitBatch q t now).keys = [] then [] else [Write.update (commitBatch q t now)]).foldl Write.apply
      q.coll).lookup k = ((commitBatch q t now).lookup k).or (q.coll.lookup k) := by
  split_ifs with hb
  · have hk : k ∉ commitBatch q t now := by
      intro hm
      have := AList.mem_keys.1 hm
      rw [hb] at this
      exact absurd this not_mem_nil
    rw [lookup_none_of_notMem hk]
    rfl
  · simp only [foldl_cons, foldl_nil, Write.apply, Store.update]
    exact lookup_union _ _ k

variable {updErr : Option String} {t : Txn E} {now : ℤ}

/-- **The crash points.** The store before the first write, or the batch written and some prefix of the destroyed keys
deleted. -/
theorem crashAfter_lookup {q : Queue E} (order : List JobKey) (n : ℕ) (he : commitError q t now updErr = none) :
    crashAfter q t now updErr order n = q.coll ∨
      ∃ m, ∀ k, (crashAfter q t now updErr order n).lookup k =
        if k ∈ order.take m then none else ((commitBatch q t now).lookup k).or (q.coll.lookup k) := by
  unfold crashAfter commitWrites
  simp only [he]
  cases n with
  | zero => exact .inl rfl
  | succ n =>
    right
    by_cases hb : (commitBatch q t now).keys = []
    · refine ⟨n + 1, fun k => ?_⟩
      have hbl := batch_lookup q t now k
      rw [if_pos hb] at hbl ⊢
      rw [nil_append, ← map_take, foldl_delete, ← hbl]
      rfl
    · refine ⟨n, fun k => ?_⟩
      have hbl := batch_lookup q t now k
      rw [if_neg hb] at hbl ⊢
      rw [singleton_append, take_succ_cons, foldl_cons, ← map_take, foldl_delete, ← hbl]
      rfl

/-- a crash point that does occur: the batch is written and the first `m` destroyed keys are deleted -/
theorem crashAfter_deleted {q : Queue E} (order : List JobKey) (m : ℕ) (he : commitError q t now updErr = none) :
    ∃ n, ∀ k, (crashAfter q t now updErr order n).lookup k =
      if k ∈ order.take m then none else ((commitBatch q t now).lookup k).or (q.coll.lookup k) := by
  refine ⟨(if (commitBatch q t now).keys = [] then [] else [Write.update (commitBatch q t now)]).length + m,
    fun k => ?_⟩
  unfold crashAfter commitWrites
  simp only [he]
  rw [take_length_add_append, ← map_take, foldl_append, foldl_delete, batch_lookup]

theorem commit_lookup {q : Queue E} (he : commitError q t now updErr = none) (k : JobKey) :
    (commit q t now updErr).2.1.coll.lookup k =
      if k ∈ t.destroyed then none else ((commitBatch q t now).lookup k).or (q.coll.lookup k) := by
  have hacc : (commit q t now updErr).1 = none := by simp [commit, he]
  rw [commit_accepted hacc, committed_lookup, commitBatch_lookup]
  split_ifs <;> rfl

/-- **Without a crash** the writes lead to the store of the commit, in whatever order the destroyed keys come. -/
theorem commit_runs_writes (t : Txn E) (now : ℤ) (updErr : Option String) {order : List JobKey}
    (ho : t.Iterates order) :
    SameAds ((commitWrites q t now updErr order).foldl Write.apply q.coll) (commit q t now updErr).2.1.coll := by
  intro k
  cases he : commitError q t now updErr with
  | some => simp [commitWrites, commit, he]
  | none =>
    rw [commit_lookup he]
    simp only [commitWrites, he, foldl_append, foldl_delete, batch_lookup, ho.mem]

/-! ## When a commit is atomic -/

/-- the commit stops before its first write: a deferred error, an anonymous caller with something to write, or a batch
write that fails -/
def Stops (t : Txn E) (updErr : Option String) : Prop :=
  t.errs ≠ [] ∨ (t.anonymous = true ∧ (t.pending.keys ≠ [] ∨ t.destroyed ≠ [])) ∨
    (updErr ≠ none ∧ ∃ k ad, stagedAtCommit t k = some ad ∧ k ∉ t.destroyed)

/-- every ad the batch writes is in the store already -/
def BatchStored (q : Queue E) (t : Txn E) (now : ℤ) : Prop :=
  ∀ k ad, stagedAtCommit t k = some ad → k ∉ t.destroyed → q.coll.lookup k = some (materialize q t ad k now)

/-- at most one write changes the store: no destroyed key is stored, or one is and the batch changes nothing -/
def OneEffect (q : Queue E) (t : Txn E) (now : ℤ) : Prop :=
  (∀ k ∈ t.destroyed, k ∉ q.coll) ∨
    BatchStored q t now ∧ ∀ k ∈ t.destroyed, ∀ k' ∈ t.destroyed, k ∈ q.coll → k' ∈ q.coll → k = k'

theorem commitError_none_iff (t : Txn E) (now : ℤ) (updErr : Option String) :
    commitError q t now updErr = none ↔ ¬ Stops t updErr := by
  have hb := commitBatch_keys_nil q t now
  unfold commitError Stops
  by_cases hE : t.errs = []
  · by_cases hA : t.anonymous = true ∧ ¬ (t.pending.keys = [] ∧ t.destroyed = [])
    · rw [if_neg (not_not.2 hE), if_pos hA]
      have : t.anonymous = true ∧ (t.pending.keys ≠ [] ∨ t.destroyed ≠ []) := ⟨hA.1, not_and_or.1 hA.2⟩
      simp [this]
    · rw [if_neg (not_not.2 hE), if_neg hA]
      have hA' : ¬ (t.anonymous = true ∧ (t.pending.keys ≠ [] ∨ t.destroyed ≠ [])) :=
        fun h => hA ⟨h.1, not_and_or.2 h.2⟩
      by_cases hk : (commitBatch q t now).keys = []
      · rw [if_pos hk]
        have hnone := hb.1 hk
        simp only [true_iff]
        rintro (h | h | ⟨-, k, ad, hs, hd⟩)
        · exact h hE
        · exact hA' h
        · exact hd (hnone k ad hs)
      · rw [if_neg hk, Option.map_eq_none_iff]
        have hsome : ∃ k ad, stagedAtCommit t k = some ad ∧ k ∉ t.destroyed := by
          by_contra hno
          refine hk (hb.2 fun k ad hs => ?_)
          by_contra hd
          exact hno ⟨k, ad, hs, hd⟩
        constructor
        · rintro h (h' | h' | h')
          · exact h' hE
          · exact hA' h'
          · exact h'.1 h
        · intro h
          by_contra hu
          exact h (.inr (.inr ⟨hu, hsome⟩))
  · rw [if_pos hE]
    simp [hE]

/-- **A commit reports an error exactly when it stops before its first write.** -/
theorem commit_error_iff (t : Txn E) (now : ℤ) (updErr : Option String) :
    (commit q t now updErr).1 ≠ none ↔ Stops t updErr := by
  rw [← not_iff_not, not_not, ← commitError_none_iff q t now updErr]
  unfold commit
  cases commitError q t now updErr <;> simp

theorem batch_of_stored {q : Queue E} (h : BatchStored q t now) (k : JobKey) :
    ((commitBatch q t now).lookup k).or (q.coll.lookup k) = q.coll.lookup k := by
  rw [commitBatch_lookup]
  split_ifs with hd
  · rfl
  · cases hs : stagedAtCommit t k with
    | none => rfl
    | some ad => simp [h k ad hs hd]

theorem destroyed_not_in_batch (t : Txn E) (now : ℤ) {k : JobKey} (hd : k ∈ t.destroyed) :
    (commitBatch q t now).lookup k = none := by
  rw [commitBatch_lookup, if_pos hd]

/-- with at most one effective write every crash point is the old store or the new one -/
theorem crashAfter_of_oneEffect {q : Queue E} (h : OneEffect q t now)
    (he : commitError q t now updErr = none) {order : List JobKey} (ho : t.Iterates order) (n : ℕ) :
    SameAds (crashAfter q t now updErr order n) q.coll ∨
      SameAds (crashAfter q t now updErr order n) (commit q t now updErr).2.1.coll := by
  rcases crashAfter_lookup order n he with hz | ⟨m, hm⟩
  · left
    intro k
    rw [hz]
  rcases h with hnone | ⟨hstored, hone⟩
  · -- the deletions change nothing
    right
    intro k
    rw [hm, commit_lookup he]
    by_cases hk : k ∈ t.destroyed
    · rw [if_pos hk, destroyed_not_in_batch q t now hk, lookup_none_of_notMem (hnone k hk)]
      split_ifs <;> rfl
    · rw [if_neg hk, if_neg fun hc => hk ((ho.mem k).1 (mem_of_mem_take hc))]
  · by_cases hgone : ∃ k ∈ order.take m, k ∈ q.coll
    · -- the one destroyed key that is stored is already deleted
      obtain ⟨k0, hk0, hs0⟩ := hgone
      have hd0 : k0 ∈ t.destroyed := (ho.mem k0).1 (mem_of_mem_take hk0)
      right
      intro k
      rw [hm, commit_lookup he, batch_of_stored hstored]
      by_cases hk : k ∈ order.take m
      · rw [if_pos hk, if_pos ((ho.mem k).1 (mem_of_mem_take hk))]
      · rw [if_neg hk]
        split_ifs with hd
        · refine lookup_none_of_notMem fun hs => hk ?_
          rw [hone k hd k0 hd0 hs hs0]
          exact hk0
        · rfl
    · left
      intro k
      rw [hm, batch_of_stored hstored]
      split_ifs with hk
      · exact (lookup_none_of_notMem fun hs => hgone ⟨k, hk, hs⟩).symm
      · rfl

omit [ClassAdLib E] in
/-- some iteration deletes `k` first -/
theorem exists_iterates {k : JobKey} (hk : k ∈ t.destroyed) : ∃ rest, t.Iterates (k :: rest) := by
  refine ⟨t.destroyed.dedup.erase k, ?_, fun k' => ?_⟩
  · exact ((t.destroyed.nodup_dedup).perm (perm_cons_erase (mem_dedup.2 hk)))
  · rw [← (perm_cons_erase (mem_dedup.2 hk)).mem_iff, mem_dedup]

/-- with two effective writes some crash point is neither the old store nor the new one -/
theorem oneEffect_of_crashAfter {q : Queue E} (he : commitError q t now updErr = none)
    (h : ∀ order n, t.Iterates order → SameAds (crashAfter q t now updErr order n) q.coll ∨
      SameAds (crashAfter q t now updErr order n) (commit q t now updErr).2.1.coll) : OneEffect q t now := by
  by_cases hnone : ∀ k ∈ t.destroyed, k ∉ q.coll
  · exact .inl hnone
  right
  push Not at hnone
  obtain ⟨k0, hd0, hs0⟩ := hnone
  obtain ⟨_, hl0⟩ := (mem_iff_lookup _ _).1 hs0
  refine ⟨fun k ad hs hd => ?_, ?_⟩
  · -- the crash right after the batch: `k0` is still there, so it has to be the old store
    obtain ⟨rest, ho⟩ := exists_iterates hd0
    obtain ⟨n, hn⟩ := crashAfter_deleted (k0 :: rest) 0 he
    simp only [take_zero, not_mem_nil, if_false] at hn
    rcases h _ n ho with hsame | hsame
    · have hk := hsame k
      rw [hn, commitBatch_lookup, if_neg hd, hs] at hk
      simpa using hk.symm
    · have hk := hsame k0
      rw [hn, commit_lookup he, if_pos hd0, destroyed_not_in_batch q t now hd0, hl0] at hk
      cases hk
  · -- the crash right after the first deletion: one key is gone and the other is not
    have hfirst : ∀ k ∈ t.destroyed, ∀ k' ∈ t.destroyed, k ∈ q.coll → k' ∈ q.coll → k' = k := by
      intro k hd k' hd' hs hs'
      by_contra hne
      obtain ⟨_, hl⟩ := (mem_iff_lookup _ _).1 hs
      obtain ⟨_, hl'⟩ := (mem_iff_lookup _ _).1 hs'
      obtain ⟨rest, ho⟩ := exists_iterates hd
      obtain ⟨n, hn⟩ := crashAfter_deleted (k :: rest) 1 he
      rcases h _ n ho with hsame | hsame
      · have hk := hsame k
        rw [hn, if_pos (by simp), hl] at hk
        cases hk
      · have hk := hsame k'
        rw [hn, if_neg (by simpa using hne), destroyed_not_in_batch q t now hd', commit_lookup he, if_pos hd',
          hl'] at hk
        cases hk
    exact fun k hd k' hd' hs hs' => (hfirst k hd k' hd' hs hs').symm

/-- **Commit is all or nothing exactly when at most one of its writes changes the store.** For every order in which the
destroyed keys are deleted and every crash point, the store that is left is the old one or the new one; and a commit
that reports an error has written nothing. -/
theorem commit_atomic_iff (q : Queue E) (t : Txn E) (now : ℤ) (updErr : Option String) :
    (∀ order n, t.Iterates order →
        SameAds (crashAfter q t now updErr order n) q.coll ∨
          SameAds (crashAfter q t now updErr order n) (commit q t now updErr).2.1.coll) ∧
      ((commit q t now updErr).1 ≠ none → (commit q t now updErr).2.1.coll = q.coll) ↔
    Stops t updErr ∨ OneEffect q t now := by
  have herr : (commit q t now updErr).1 ≠ none → (commit q t now updErr).2.1.coll = q.coll := by
    intro h
    obtain ⟨_, he⟩ := Option.ne_none_iff_exists'.1 h
    rcases hc : commit q t now updErr with ⟨_, _, _⟩
    rw [hc] at he
    cases he
    rw [(commit_error_keeps hc).1]
  constructor
  · rintro ⟨hcrash, -⟩
    by_cases hs : Stops t updErr
    · exact .inl hs
    · exact .inr (oneEffect_of_crashAfter ((commitError_none_iff q t now updErr).2 hs) hcrash)
  · intro h
    refine ⟨fun order n ho => ?_, herr⟩
    cases he : commitError q t now updErr with
    | some =>
      left
      intro k
      simp [crashAfter, commitWrites, he]
    | none =>
      have hns := (commitError_none_iff q t now updErr).1 he
      exact crashAfter_of_oneEffect (h.resolve_left hns) he ho n

end Txn

/-! ## A cluster destroyed by half -/

/-- alice's transaction that destroys cluster 1 -/
def aliceDestroys : Txn Value := (Txn.session aliceQueue "alice@pool" [.destroyCluster 1]).2

/-- The queue is reachable and the commit reports no error, but a crash after the first deletion leaves the proc ad
without its cluster ad: neither the old store nor the new one. -/
theorem destroyCluster_torn :
    Sys.Reachable aliceQueue ∧ aliceDestroys.Iterates [clusterKey 1, ⟨1, 0⟩] ∧
      (Txn.commit aliceQueue aliceDestroys 200 none).1 = none ∧
      ¬ Txn.SameAds (Txn.crashAfter aliceQueue aliceDestroys 200 none [clusterKey 1, ⟨1, 0⟩] 1) aliceQueue.coll ∧
      ¬ Txn.SameAds (Txn.crashAfter aliceQueue aliceDestroys 200 none [clusterKey 1, ⟨1, 0⟩] 1)
        (Txn.commit aliceQueue aliceDestroys 200 none).2.1.coll := by
  have hd : aliceDestroys.destroyed = [clusterKey 1, ⟨1, 0⟩] := by decide +kernel
  refine ⟨aliceQueue_reachable, ⟨by decide, fun k => by rw [hd]⟩, by decide +kernel, fun h => ?_, fun h => ?_⟩
  · have hk := congrArg Option.isSome (h (clusterKey 1))
    revert hk
    decide +kernel
  · have hk := congrArg Option.isSome (h ⟨1, 0⟩)
    revert hk
    decide +kernel

end AccessPoint
