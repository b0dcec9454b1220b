/-
What a commit does to the attributes it was not asked to change (internal/queue/txn.go, `Commit` and `materialize`).

The overlay holds only the attributes staged in this transaction, and a commit replaces the whole ad of every staged key
and of the cluster ad of every touched cluster: an attribute that was not staged ends up with the value the schedd
stamps on every rewritten ad (`stamp`), or with none.

- `flat_kept_iff`: for an attribute nothing was staged for, exactly when its flattened value survives the commit.
- `immutable_kept_iff`: for the immutable attributes of a committed ad, which authorization never lets a client stage.
- `unnamed_kept_iff`: for the attributes no accepted request of the transaction named.
- `super_edit_changes_owner`, `edit_drops_attributes`: two edits after which the value is not the old one.
-/
import AccessPoint.Queue.System

namespace AccessPoint

open ClassAdLib

variable {E : Type}

/-- the value of `a` in the flattened ad of `k` -/
def Queue.flat (q : Queue E) (k : JobKey) (a : Attr) : Option E := (q.coll.get k).bind fun ad => ad a

/-- the value of `a` in the own ad of `k` -/
def Queue.own (q : Queue E) (k : JobKey) (a : Attr) : Option E := (q.coll.lookup k).bind fun ad => ad a

variable {k : JobKey}

theorem Queue.flat_eq (q : Queue E) {ad : Ad E} (h : q.coll.lookup k = some ad) (a : Attr) :
    q.flat k a = (ad a).or (if k.proc < 0 then none else q.own (clusterKey k.cluster) a) := by
  unfold Queue.flat Queue.own
  rw [Store.get_of_lookup h]
  split_ifs with hk
  · rw [Store.parentAd_neg _ hk]
    simp
  · rw [Store.parentAd_proc _ (not_lt.1 hk)]
    cases q.coll.lookup (clusterKey k.cluster) <;> simp

namespace Txn

variable {t : Txn E}

theorem stagedAtCommit_eq {ad : Ad E} (h : stagedAtCommit t k = some ad) : ad = t.staged k := by
  unfold stagedAtCommit at h
  unfold staged
  cases hp : t.pending.lookup k with
  | some => simp_all
  | none =>
    rw [hp, Option.none_or] at h
    split_ifs at h
    cases h
    rfl

variable [ClassAdLib E]

/-- what a rewritten ad holds at an attribute nothing was staged for: the forced value, else the default -/
def stamp (q : Queue E) (t : Txn E) (now : ℤ) (k : JobKey) (a : Attr) : Option E :=
  (forced q t (t.staged k) k now a).or (defaulted k now a)

/-- what a proc of `c` inherits from the cluster ad once that is destroyed or rewritten; a cluster ad that was not in
the store may hold whatever was staged for it -/
def inheritedStamp (q : Queue E) (t : Txn E) (now : ℤ) (c : ℤ) (a : Attr) : Option E :=
  if clusterKey c ∈ t.destroyed then none
  else if (q.coll.lookup (clusterKey c)).isSome then stamp q t now (clusterKey c) a
  else (forced q t (t.staged (clusterKey c)) (clusterKey c) now a).or
    ((t.staged (clusterKey c) a).or (defaulted (clusterKey c) now a))

/-- the value of `a` at `k` survives: when the ad itself is rewritten, the value it had is the stamped one; when only
the cluster ad under it is rewritten or destroyed, the proc has the attribute itself or had inherited the stamped
value -/
def Survives (q : Queue E) (t : Txn E) (now : ℤ) (k : JobKey) (a : Attr) : Prop :=
  if (stagedAtCommit t k).isSome then
    q.flat k a = (stamp q t now k a).or (if k.proc < 0 then none else inheritedStamp q t now k.cluster a)
  else
    0 ≤ k.proc → t.touches k.cluster = true ∨ clusterKey k.cluster ∈ t.destroyed → q.own k a = none →
      q.own (clusterKey k.cluster) a = inheritedStamp q t now k.cluster a

theorem materialize_stamp (q : Queue E) {a : Attr} (now : ℤ) (h : t.staged k a = none) :
    materialize q t (t.staged k) k now a = stamp q t now k a := by
  rw [materialize_apply, h, Option.none_or]
  rfl

/-- the inherited value after a commit that destroyed or rewrote the cluster ad -/
theorem committed_own_clusterKey {q : Queue E} {now : ℤ} {c : ℤ} {a : Attr}
    (htd : t.touches c = true ∨ clusterKey c ∈ t.destroyed)
    (hst : q.coll.lookup (clusterKey c) ≠ none → t.staged (clusterKey c) a = none) :
    (committed q t now).own (clusterKey c) a = inheritedStamp q t now c a := by
  unfold Queue.own inheritedStamp
  rw [committed_lookup]
  split_ifs with hd hs
  · rfl
  · have htouch : t.touches c = true := htd.resolve_right hd
    rw [stagedAtCommit_clusterKey htouch]
    simp only [Option.map_some, Option.some_or, Option.bind_some]
    exact materialize_stamp q now (hst (Option.isSome_iff_ne_none.1 hs))
  · have htouch : t.touches c = true := htd.resolve_right hd
    rw [stagedAtCommit_clusterKey htouch]
    simp only [Option.map_some, Option.some_or, Option.bind_some]
    exact materialize_apply q t _ _ now a

/-- **When an attribute survives a commit that staged nothing for it.** -/
theorem flat_kept_iff {q : Queue E} {now : ℤ} {a : Attr} (hk : q.coll.lookup k ≠ none)
    (hd : k ∉ t.destroyed) (hst : t.staged k a = none)
    (hstc : q.coll.lookup (clusterKey k.cluster) ≠ none → t.staged (clusterKey k.cluster) a = none) :
    (committed q t now).flat k a = q.flat k a ↔ Survives q t now k a := by
  obtain ⟨own, hown⟩ := Option.ne_none_iff_exists'.1 hk
  unfold Survives
  cases hs : stagedAtCommit t k with
  | some ad =>
    -- the ad itself is rewritten: the flattened value is stamps all the way down
    obtain rfl := stagedAtCommit_eq hs
    have hl : (committed q t now).coll.lookup k = some (materialize q t (t.staged k) k now) := by
      rw [committed_lookup_kept q now hd, hs]
      rfl
    rw [Queue.flat_eq _ hl, materialize_stamp q now hst]
    simp only [Option.isSome_some, if_true]
    by_cases hp : k.proc < 0
    · simp only [hp, if_true]
      exact eq_comm
    · have htouch : t.touches k.cluster = true := by
        rw [stagedAtCommit_proc (by omega)] at hs
        exact touches_of_mem ((KeyMap.mem_iff_lookup _ k).2 ⟨_, hs⟩)
      simp only [hp, if_false]
      rw [committed_own_clusterKey (.inl htouch) hstc]
      exact eq_comm
  | none =>
    have hl : (committed q t now).coll.lookup k = some own := by
      rw [committed_lookup_kept q now hd, hs, hown]
      rfl
    rw [Queue.flat_eq _ hl, Queue.flat_eq q hown]
    simp only [Option.isSome_none, Bool.false_eq_true, if_false]
    have hoa : q.own k a = own a := by simp [Queue.own, hown]
    rw [hoa]
    rcases lt_or_ge k.proc 0 with hp | hp
    · simp [hp, not_le.2 hp]
    · have hp' : ¬ k.proc < 0 := not_lt.2 hp
      simp only [hp', if_false]
      by_cases htd : t.touches k.cluster = true ∨ clusterKey k.cluster ∈ t.destroyed
      · rw [committed_own_clusterKey htd hstc]
        cases own a with
        | some => simp
        | none => exact ⟨fun h _ _ _ => by simpa using h.symm, fun h => by simpa using (h hp htd rfl).symm⟩
      · rw [not_or, Bool.not_eq_true] at htd
        have hsame : (committed q t now).own (clusterKey k.cluster) a = q.own (clusterKey k.cluster) a := by
          unfold Queue.own
          rw [committed_lookup_untouched q now (by simpa using htd.1) htd.2]
        rw [hsame]
        simp [htd]

theorem session_flat (q : Queue E) (user : String) (ops : List Op) (k : JobKey) (a : Attr) :
    (session q user ops).1.flat k a = q.flat k a := by
  unfold Queue.flat
  rw [(run_base (q, begin q user) ops).coll]

/-! ## Immutable attributes -/

/-- **Immutable attributes.** For every client, super user or not, with any effective owner, and every sequence of
requests: a commit that goes through and does not destroy the committed ad `k` keeps all its immutable attributes
exactly when each of them survives the restamping. -/
theorem immutable_kept_iff (q : Queue E) (user : String) (ops : List Op) (now : ℤ) (updErr : Option String) (k : JobKey)
    (hk : q.coll.lookup k ≠ none) (hd : k ∉ (session q user ops).2.destroyed)
    (hc : (commit (session q user ops).1 (session q user ops).2 now updErr).1 = none) :
    (∀ a ∈ q.authz.immutable,
        (commit (session q user ops).1 (session q user ops).2 now updErr).2.1.flat k a = q.flat k a) ↔
      ∀ a ∈ q.authz.immutable, Survives (session q user ops).1 (session q user ops).2 now k a := by
  have hcoll := (run_base (q, begin q user) ops).coll
  rw [commit_accepted hc]
  refine forall₂_congr fun a ha => ?_
  rw [← session_flat q user ops k a]
  refine flat_kept_iff (by rw [hcoll]; exact hk) hd (run_staged_immutable q user ops hk ha) fun hcl => ?_
  rw [hcoll] at hcl
  exact run_staged_immutable q user ops hcl ha

/-- alice's job with nothing in it but what a commit stamps -/
def plainQueue : Queue Value :=
  (Sys.run (Sys.init poolOptions) [.begin 0 "alice@pool", .request 0 (.newCluster none), .request 0 (.newProc 1),
    .commit 0 100 none]).q

/-- alice sets one attribute in the same second: both ads are stamped again with the values they had -/
theorem immutable_kept_edit :
    let s := session plainQueue "alice@pool" [.setAttribute ⟨1, 0⟩ "Foo" "1"]
    ((stagedAtCommit s.2 ⟨1, 0⟩).isSome = true ∧ plainQueue.flat ⟨1, 0⟩ .owner = some (.str "alice")) ∧
      ∀ a ∈ plainQueue.authz.immutable,
        (commit s.1 s.2 100 none).2.1.flat ⟨1, 0⟩ a = plainQueue.flat ⟨1, 0⟩ a := by
  intro s
  obtain ⟨hk, hd, hc, hs, ho⟩ : plainQueue.coll.lookup ⟨1, 0⟩ ≠ none ∧ ⟨1, 0⟩ ∉ s.2.destroyed ∧
      (commit s.1 s.2 100 none).1 = none ∧ (stagedAtCommit s.2 ⟨1, 0⟩).isSome = true ∧
      plainQueue.flat ⟨1, 0⟩ .owner = some (.str "alice") := by
    decide +kernel
  refine ⟨⟨hs, ho⟩, (immutable_kept_iff plainQueue "alice@pool" _ 100 none ⟨1, 0⟩ hk hd hc).2 ?_⟩
  simp only [Survives, show (stagedAtCommit (session plainQueue "alice@pool" _).2 ⟨1, 0⟩).isSome = true from hs,
    if_true]
  decide +kernel

/-- **An edit by a super user changes the owner.** The super user sets one attribute on alice's job, with no effective
owner; the commit stamps the super user's identity on the job and on its cluster ad, resets the universe and drops the
accounting group. -/
theorem super_edit_changes_owner :
    Sys.Reachable aliceQueue ∧ aliceQueue.coll.lookup ⟨1, 0⟩ ≠ none ∧
      ⟨1, 0⟩ ∉ (session aliceQueue "condor@pool" [.setAttribute ⟨1, 0⟩ "Foo" "1"]).2.destroyed ∧
      (commit (session aliceQueue "condor@pool" [.setAttribute ⟨1, 0⟩ "Foo" "1"]).1
        (session aliceQueue "condor@pool" [.setAttribute ⟨1, 0⟩ "Foo" "1"]).2 200 none).1 = none ∧
      [Attr.owner, .user, .jobUniverse, .accountingGroup].all (· ∈ aliceQueue.authz.immutable) = true ∧
      [Attr.owner, .user, .jobUniverse, .accountingGroup].map (aliceQueue.flat ⟨1, 0⟩) =
        [some (.str "alice"), some (.str "alice@pool"), some (.int 7), some (.str "physics")] ∧
      [Attr.owner, .user, .jobUniverse, .accountingGroup].map
        ((commit (session aliceQueue "condor@pool" [.setAttribute ⟨1, 0⟩ "Foo" "1"]).1
          (session aliceQueue "condor@pool" [.setAttribute ⟨1, 0⟩ "Foo" "1"]).2 200 none).2.1.flat ⟨1, 0⟩) =
        [some (.str "condor"), some (.str "condor@pool"), some (.int 5), none] :=
  ⟨aliceQueue_reachable, by decide +kernel⟩

/-! ## Attributes nobody named -/

/-- **Unnamed attributes.** A commit that goes through and does not destroy the committed ad `k` keeps an attribute that
no accepted request named, on that ad or on its cluster ad, exactly when it survives the restamping. -/
theorem unnamed_kept_iff (q : Queue E) (user : String) (ops : List Op) (now : ℤ) (updErr : Option String) (k : JobKey)
    (hk : q.coll.lookup k ≠ none) (hd : k ∉ (session q user ops).2.destroyed)
    (hc : (commit (session q user ops).1 (session q user ops).2 now updErr).1 = none) (a : Attr)
    (hn : ¬ Named q user ops k a) (hnc : ¬ Named q user ops (clusterKey k.cluster) a) :
    (commit (session q user ops).1 (session q user ops).2 now updErr).2.1.flat k a = q.flat k a ↔
      Survives (session q user ops).1 (session q user ops).2 now k a := by
  have hcoll := (run_base (q, begin q user) ops).coll
  rw [commit_accepted hc, ← session_flat q user ops k a]
  exact flat_kept_iff (by rw [hcoll]; exact hk) hd (run_staged_named q user ops hn) fun _ =>
    run_staged_named q user ops hnc

/-- alice asks for another owner, which is refused, and sets one attribute: the owner is stamped again with the value it
had -/
theorem unnamed_kept_refused :
    let ops : List Op := [.setAttribute ⟨1, 0⟩ "Owner" "\"bob\"", .setAttribute ⟨1, 0⟩ "Foo" "1"]
    let s := session aliceQueue "alice@pool" ops
    (commit s.1 s.2 200 none).2.1.flat ⟨1, 0⟩ .owner = aliceQueue.flat ⟨1, 0⟩ .owner := by
  intro ops s
  have hn : ∀ k, ¬ Named aliceQueue "alice@pool" ops k .owner := by
    rintro k ⟨before, o, after, hops, name, hname, hauth, ⟨value, rfl, -⟩ | rfl⟩
    · match before, hops with
      | [], h =>
        obtain ⟨rfl, rfl, rfl⟩ := Op.setAttribute.inj (List.cons.inj h).1
        exact absurd hauth (by decide +kernel)
      | [_], h =>
        obtain ⟨-, rfl, -⟩ := Op.setAttribute.inj (List.cons.inj (List.cons.inj h).2).1
        exact absurd hname (by decide +kernel)
      | _ :: _ :: before, h => simp [ops] at h
    · have hmem : Op.deleteAttribute k name ∈ ops := hops ▸ List.mem_append_right _ List.mem_cons_self
      simp [ops] at hmem
  obtain ⟨hk, hd, hc, hs⟩ : aliceQueue.coll.lookup ⟨1, 0⟩ ≠ none ∧ ⟨1, 0⟩ ∉ s.2.destroyed ∧
      (commit s.1 s.2 200 none).1 = none ∧ (stagedAtCommit s.2 ⟨1, 0⟩).isSome = true := by
    decide +kernel
  refine (unnamed_kept_iff aliceQueue "alice@pool" ops 200 none ⟨1, 0⟩ hk hd hc .owner (hn _) (hn _)).2 ?_
  unfold Survives
  rw [hs]
  decide +kernel

/-- **An edit drops what it did not name.** alice sets one attribute on their own job: the command is gone, the
submission date, the job id built from it and the universe are new. -/
theorem edit_drops_attributes :
    Sys.Reachable aliceQueue ∧ aliceQueue.coll.lookup ⟨1, 0⟩ ≠ none ∧
      ⟨1, 0⟩ ∉ (session aliceQueue "alice@pool" [.setAttribute ⟨1, 0⟩ "Foo" "1"]).2.destroyed ∧
      (commit (session aliceQueue "alice@pool" [.setAttribute ⟨1, 0⟩ "Foo" "1"]).1
        (session aliceQueue "alice@pool" [.setAttribute ⟨1, 0⟩ "Foo" "1"]).2 200 none).1 = none ∧
      [Attr.cmd, .qDate, .globalJobId, .jobUniverse].all (· ≠ ClassAdLib.canon Value "Foo") = true ∧
      [Attr.cmd, .qDate, .globalJobId, .jobUniverse].map (aliceQueue.flat ⟨1, 0⟩) =
        [some (.str "/bin/true"), some (.int 100), some (.str "schedd#1.0#100"), some (.int 7)] ∧
      [Attr.cmd, .qDate, .globalJobId, .jobUniverse].map
        ((commit (session aliceQueue "alice@pool" [.setAttribute ⟨1, 0⟩ "Foo" "1"]).1
          (session aliceQueue "alice@pool" [.setAttribute ⟨1, 0⟩ "Foo" "1"]).2 200 none).2.1.flat ⟨1, 0⟩) =
        [none, some (.int 200), some (.str "schedd#1.0#200"), some (.int 5)] :=
  ⟨aliceQueue_reachable, by decide +kernel⟩

end Txn

end AccessPoint
