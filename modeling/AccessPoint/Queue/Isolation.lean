/-
Cross-user isolation of transactions (internal/queue/authz.go, txn.go).

Every request is checked against the committed ad it names, but `Commit` also rewrites the cluster ad of every cluster
in which something is staged, and an ad that does not exist yet may be staged in anybody's cluster.

- `destroyed_not_foreign`: no request marks another user's ad destroyed.
- `commit_isolates`: a commit that stages nothing in a cluster where another user has an ad, and does not destroy the
  cluster ad under such an ad, leaves every other user's ad as it was.
- `stray_proc_replaces_cluster_ad`: one `SetAttribute` on a proc that does not exist, in another user's cluster,
  replaces that user's cluster ad.
-/
import AccessPoint.Queue.System
import AccessPoint.Literal

namespace AccessPoint

open ClassAdLib

variable {E : Type} [ClassAdLib E]

/-- an ad is stored at `k` and its job user is a user other than `user` -/
def Queue.foreign (q : Queue E) (user : String) (k : JobKey) : Bool :=
  match q.coll.get k with
  | none => false
  | some ad => q.jobUser ad ≠ "" && !sameUser E q.domain user (q.jobUser ad)

variable {q : Queue E} {k : JobKey} {user : String}

theorem Queue.foreign_iff :
    q.foreign user k = true ↔
      ∃ ad, q.coll.get k = some ad ∧ q.jobUser ad ≠ "" ∧ sameUser E q.domain user (q.jobUser ad) = false := by
  unfold Queue.foreign
  cases q.coll.get k <;> simp

theorem sameUser_empty (domain user : String) : sameUser E domain "" user = false := by
  have h : shortName "" = "" := by decide +kernel
  simp [sameUser, h]

namespace Txn

/-- the identity `begin` records is the caller's, or none -/
theorem begin_authUser (q : Queue E) (user : String) :
    (begin q user).authUser = "" ∨ (begin q user).authUser = user := by
  unfold begin
  dsimp only
  split_ifs
  · exact .inl rfl
  · exact .inr rfl

theorem begin_isSuper (h : q.isSuperUser user = false) : (begin q user).isSuper = false := by
  unfold begin
  dsimp only
  split_ifs
  · rfl
  · exact h

theorem begin_sameUser {user other : String} (h : sameUser E q.domain user other = false) :
    sameUser E q.domain (begin q user).authUser other = false := by
  rcases begin_authUser q user with ha | ha
  · rw [ha]; exact sameUser_empty _ _
  · rw [ha]; exact h

/-- the ownership rule refuses another user's ad -/
theorem checkOwner_foreign {t : Txn E} (ht : q.authz.allUsersTrusted = false) (hs : t.isSuper = false)
    {owner : String} (ho : owner ≠ "") (hu : sameUser E q.domain t.authUser owner = false) (k : JobKey) :
    checkOwner q t k owner ≠ none := by
  simp [checkOwner, ht, hs, ho, hu]

theorem committedOwner_of_user {ad : Ad E} (hg : q.coll.get k = some ad)
    (hu : q.jobUser ad ≠ "") : committedOwner q k = some (q.jobUser ad) := by
  simp [committedOwner, hg, hu]

/-- a scan reports a proc under its own key -/
theorem clusterProcs_get (hq : Sys.Reachable q) {c : ℤ} {ad : Ad E}
    (h : (k, ad) ∈ clusterProcs q c) : q.coll.get k = some ad := by
  unfold clusterProcs at h
  obtain ⟨ad', hm, hk⟩ := List.mem_filterMap.1 h
  obtain ⟨k', hp, hg⟩ := Store.mem_scan.1 hm
  obtain ⟨_, hown, hchain⟩ := Store.get_eq_some.1 hg
  obtain ⟨hc, hpr⟩ := (Sys.reachable_wellKeyed hq hown).chainTo (q.coll.parentAd k') hp
  rw [hchain] at hc hpr
  have hids : jobIDs ad' = some k' := by
    simp [jobIDs, Ad.evaluateAttrInt_lit hc, Ad.evaluateAttrInt_lit hpr]
  simp only [hids] at hk
  split_ifs at hk
  cases hk
  exact hg

/-- **No request marks another user's ad destroyed.** -/
theorem destroyed_not_foreign (hq : Sys.Reachable q) (hs : q.isSuperUser user = false)
    (ht : q.authz.allUsersTrusted = false) (ops : List Op) (hk : q.foreign user k = true) :
    k ∉ (session q user ops).2.destroyed := by
  obtain ⟨ad, hg, hu, hsame⟩ := Queue.foreign_iff.1 hk
  refine (Runs.foldl_inv (P := fun s : Queue E × Txn E => (q.SameBase s.1 ∧ s.2.authUser = (begin q user).authUser ∧
    s.2.isSuper = false) ∧ k ∉ s.2.destroyed) ?_ ⟨⟨.refl q, rfl, begin_isSuper hs⟩, by simp [begin]⟩ ops).2
  rintro ⟨q', t⟩ o ⟨⟨hb, hau, hsu⟩, hd⟩
  have hid := (step_effect (q', t) o).identity
  refine ⟨⟨hb.trans (step_base _ o), hid.1.trans hau, hid.2.trans hsu⟩, fun hmem => ?_⟩
  have hdeny : checkOwner q' t k (q.jobUser ad) ≠ none := by
    refine checkOwner_foreign (by rw [hb.authz]; exact ht) hsu hu ?_ k
    rw [hb.domain, hau]
    exact begin_sameUser hsame
  have hju : q'.jobUser = q.jobUser := by
    funext ad
    unfold Queue.jobUser Queue.jobUser.ownerUser
    rw [hb.domain]
  have hg' : q'.coll.get k = some ad := by rw [hb.coll]; exact hg
  -- the key was marked by this request, so the ownership rule let it pass
  rcases (step_effect (q', t) o).destroyed hmem with h | h | ⟨c, ad', hm, h⟩
  · exact hd h
  · rw [committedOwner_of_user hg' (by rw [hju]; exact hu), Option.bind_some, hju] at h
    exact hdeny h
  · have hm' : (k, ad') ∈ clusterProcs q c := by
      unfold clusterProcs at hm ⊢
      rwa [hb.coll] at hm
    have had : ad' = ad := Option.some.inj ((clusterProcs_get hq hm').symm.trans hg)
    rw [had, hju] at h
    exact hdeny h

/-- what a commit must leave alone for the ads of other users to be safe: it stages nothing in a cluster that holds an
ad of another user, and it does not destroy the stored cluster ad that such an ad inherits from -/
def SparesOthers (q : Queue E) (user : String) (t : Txn E) : Prop :=
  ∀ k, q.foreign user k = true → t.touches k.cluster = false ∧
    (0 ≤ k.proc → clusterKey k.cluster ∈ t.destroyed → q.coll.lookup (clusterKey k.cluster) = none)

/-- **Isolation.** A transaction of a user who is no super user, however many requests it made and on whatever ids: if
its commit goes through, every ad of another user is as it was, own attributes and flattened ones, provided the commit
stages nothing in that ad's cluster and keeps its cluster ad. -/
theorem commit_isolates {q : Queue E} (hq : Sys.Reachable q) (user : String) (hs : q.isSuperUser user = false)
    (ht : q.authz.allUsersTrusted = false) (ops : List Op) (now : ℤ) (updErr : Option String)
    (hcond : commitError (session q user ops).1 (session q user ops).2 now updErr = none →
      SparesOthers q user (session q user ops).2)
    (k : JobKey) (hk : q.foreign user k = true) :
    let q' := (commit (session q user ops).1 (session q user ops).2 now updErr).2.1
    q'.coll.lookup k = q.coll.lookup k ∧ q'.coll.get k = q.coll.get k := by
  intro q'
  have hbase := run_base (q, begin q user) ops
  cases he : commitError (session q user ops).1 (session q user ops).2 now updErr with
  | some =>
    have hq' : q' = (session q user ops).1 := by simp [q', commit, he]
    rw [hq', hbase.coll]
    exact ⟨rfl, rfl⟩
  | none =>
    obtain ⟨htouch, hparent⟩ := hcond he k hk
    have hq' : q' = committed (session q user ops).1 (session q user ops).2 now := by
      simp [q', commit, he]
    have hown : q'.coll.lookup k = q.coll.lookup k := by
      rw [hq', committed_lookup_untouched _ now htouch (destroyed_not_foreign hq hs ht ops hk), hbase.coll]
    refine ⟨hown, Store.get_congr hown fun hp => ?_⟩
    by_cases hd : clusterKey k.cluster ∈ (session q user ops).2.destroyed
    · rw [hq', committed_lookup, if_pos hd, hparent hp hd]
    · rw [hq', committed_lookup_untouched _ now (by simpa using htouch) hd, hbase.coll]

/-- bob submits a cluster of their own -/
def bobSubmits : List Op := [.newCluster none, .newProc 2, .setAttribute (clusterKey 2) "Cmd" "\"/bin/date\""]

/-- alice's job is kept while bob submits -/
theorem commit_isolates_submit :
    aliceQueue.foreign "bob@pool" ⟨1, 0⟩ = true ∧
      (commit (session aliceQueue "bob@pool" bobSubmits).1
        (session aliceQueue "bob@pool" bobSubmits).2 200 none).2.1.coll.get ⟨1, 0⟩ =
      aliceQueue.coll.get ⟨1, 0⟩ := by
  refine ⟨by decide +kernel, (commit_isolates aliceQueue_reachable "bob@pool" (by decide +kernel) (by decide +kernel)
    bobSubmits 200 none (fun _ k hk => ?_) ⟨1, 0⟩ (by decide +kernel)).2⟩
  -- the only ads in the queue are those of cluster 1, and bob staged nothing there
  have hkeys : k ∈ aliceQueue.coll.keys := by
    obtain ⟨_, hg, -⟩ := Queue.foreign_iff.1 hk
    obtain ⟨own, hown, -⟩ := Store.get_eq_some.1 hg
    exact AList.mem_keys.1 ((KeyMap.mem_iff_lookup _ k).2 ⟨own, hown⟩)
  rw [show aliceQueue.coll.keys = [⟨1, -1⟩, ⟨1, 0⟩] by decide +kernel] at hkeys
  simp only [List.mem_cons, List.not_mem_nil, or_false] at hkeys
  rcases hkeys with rfl | rfl
  · exact ⟨by decide +kernel, fun hp => by simp at hp⟩
  · exact ⟨by decide +kernel, fun _ hd => absurd hd (by decide +kernel)⟩

/-- bob sets one attribute on a proc that does not exist, in alice's cluster -/
def strayEdit : List Op := [.setAttribute ⟨1, 7⟩ "Foo" "1"]

/-- **A stray proc replaces another user's cluster ad.** bob is no super user and never names an ad of alice's, yet
after the commit alice's cluster ad and job are bob's and have lost their command. -/
theorem stray_proc_replaces_cluster_ad :
    Sys.Reachable aliceQueue ∧ aliceQueue.isSuperUser "bob@pool" = false ∧
      aliceQueue.authz.allUsersTrusted = false ∧ aliceQueue.foreign "bob@pool" (clusterKey 1) = true ∧
      (commit (session aliceQueue "bob@pool" strayEdit).1
        (session aliceQueue "bob@pool" strayEdit).2 200 none).1 = none ∧
      (aliceQueue.coll.get (clusterKey 1)).map (fun ad => (ad .owner, ad .cmd)) =
        some (some (.str "alice"), some (.str "/bin/true")) ∧
      ((commit (session aliceQueue "bob@pool" strayEdit).1
        (session aliceQueue "bob@pool" strayEdit).2 200 none).2.1.coll.get (clusterKey 1)).map
          (fun ad => (ad .owner, ad .cmd)) = some (some (.str "bob"), none) :=
  ⟨aliceQueue_reachable, by decide +kernel⟩

end Txn

end AccessPoint
