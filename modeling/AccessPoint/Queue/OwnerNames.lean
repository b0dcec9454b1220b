/-
Names no job may have as its owner (internal/queue/txn.go, queue.go, factory.go).

`SetEffectiveOwner` refuses root, LOCAL_SYSTEM, the empty name and the unmapped domain. That is one of four ways an
owner reaches the store. `Begin` takes the authenticated name as it is; a commit stamps what the transaction holds; a
materialized proc has what its digest says, and otherwise only what it inherits, as long as the cluster ad is there to
inherit from. The machine is `Sys`: any transactions, the schedd's writers and materializations, interleaved.

- `Txn.setEffectiveOwner_proper`: the check is enough for every owner a super user switches to.
- `names_inv`: the invariant of the stored ads, the copies and the open transactions, event by event.
- `owners_respectable`: no such owner is stored in a run whose callers and digests name none.
- `root_submits`: root, authenticated as root, submits a job of root's.
-/
import Mathlib.Data.List.TakeWhile
import AccessPoint.Qmgmt.Barred

namespace AccessPoint

open ClassAdLib Txn Store List

/-! ## Names -/

/-- the names that own no job -/
def refusedOwners : List String := ["", "root", "LOCAL_SYSTEM"]

/-- splitting `name@domain` again: the name, or more of the text when the domain has an '@' of its own -/
theorem splitFQU_join (name domain : List Char) :
    splitFQU (String.ofList (name ++ '@' :: domain)) =
      (String.ofList (match domain.reverse.dropWhile (· ≠ '@') with
        | [] => name
        | _ :: rest => name ++ '@' :: rest.reverse),
        String.ofList (domain.reverse.takeWhile (· ≠ '@')).reverse) := by
  have htake : (domain.reverse ++ '@' :: name.reverse).takeWhile (· ≠ '@') = domain.reverse.takeWhile (· ≠ '@') := by
    rw [takeWhile_append]
    split_ifs with hall
    · simpa using ((List.takeWhile_prefix _).eq_of_length hall).symm
    · rfl
  unfold splitFQU
  simp only [String.toList_ofList, reverse_append, reverse_cons, append_assoc, singleton_append,
    htake, dropWhile_append]
  cases domain.reverse.dropWhile (· ≠ '@') <;> simp

theorem qualify_cases (domain user : String) :
    qualify domain user = user ∨
      '@' ∉ user.toList ∧ qualify domain user = String.ofList (user.toList ++ '@' :: domain.toList) := by
  unfold qualify
  split_ifs with h
  · exact .inl rfl
  · push Not at h
    refine .inr ⟨h.2.1, String.toList_inj.1 ?_⟩
    simp

theorem shortName_bare {user : String} (h : '@' ∉ user.toList) : shortName user = user := by
  have hdrop : user.toList.reverse.dropWhile (· ≠ '@') = [] := by
    rw [dropWhile_eq_nil_iff]
    intro c hc
    have hne : c ≠ '@' := fun he => h (he ▸ mem_reverse.1 hc)
    simpa using hne
  simp only [shortName, splitFQU, hdrop]

/-- a bare name put into a domain is still none of the refused ones -/
theorem shortName_qualify {domain user : String} (h : shortName user ∉ refusedOwners) :
    shortName (qualify domain user) ∉ refusedOwners := by
  rcases qualify_cases domain user with hq | ⟨hbare, hq⟩
  · rwa [hq]
  · rw [hq, shortName, splitFQU_join]
    cases domain.toList.reverse.dropWhile (· ≠ '@') with
    | nil => simpa [shortName_bare hbare] using h
    | cons =>
      -- no refused name has an '@'
      intro hmem
      have hat : ∀ name ∈ refusedOwners, '@' ∉ name.toList := by decide
      exact hat _ hmem (by simp)

section

variable {E : Type} [ClassAdLib E]

theorem isUnmapped_qualify {domain user : String} (hd : isUnmapped E ("@" ++ domain) = false)
    (hu : isUnmapped E user = false) : isUnmapped E (qualify domain user) = false := by
  rcases qualify_cases domain user with hq | ⟨-, hq⟩
  · rwa [hq]
  · have hdom : "@" ++ domain = String.ofList ([] ++ '@' :: domain.toList) := String.toList_inj.1 (by simp)
    rw [isUnmapped, hdom, splitFQU_join] at hd
    rwa [hq, isUnmapped, splitFQU_join]

variable (E) in
/-- a user a job may belong to -/
structure Respectable (user : String) : Prop where
  name : shortName user ∉ refusedOwners
  mapped : isUnmapped E user = false

theorem Respectable.qualify {domain user : String} (hd : isUnmapped E ("@" ++ domain) = false)
    (hname : shortName user ∉ refusedOwners) (hmapped : isUnmapped E user = false) :
    Respectable E (qualify domain user) :=
  ⟨shortName_qualify hname, isUnmapped_qualify hd hmapped⟩

/-- an ad whose own Owner and User are those of a respectable user -/
def Ad.OwnedWell (ad : Ad E) : Prop :=
  ∃ user, Respectable E user ∧ ad .owner = some (lit (.str (shortName user))) ∧ ad .user = some (lit (.str user))

theorem Ad.OwnedWell.congr {ad ad' : Ad E} (h : ad.OwnedWell) (ho : ad' .owner = ad .owner)
    (hu : ad' .user = ad .user) :
    ad'.OwnedWell := by
  obtain ⟨user, hr, howner, huser⟩ := h
  exact ⟨user, hr, ho.trans howner, hu.trans huser⟩

variable {ad : Ad E}

theorem Ad.OwnedWell.chainTo (h : ad.OwnedWell) (parent : Ad E) : (ad.chainTo parent).OwnedWell := by
  obtain ⟨user, hr, howner, huser⟩ := h
  exact ⟨user, hr, by simp [howner], by simp [huser]⟩

/-! ## Transactions -/

namespace Txn

/-- an identified transaction works for a respectable user, its own name being one; another stages nothing -/
structure Proper (domain : String) (t : Txn E) : Prop where
  own : t.authUser ≠ "" → Respectable E (qualify domain t.authUser)
  user : t.authUser ≠ "" → Respectable E t.user ∧ t.owner = shortName t.user
  blank : t.authUser = "" → t.Blank

/-- a name `Begin` may be given: nobody, or one whose user part owns jobs -/
def namesUser (E : Type) [ClassAdLib E] (domain user : String) : Bool :=
  user = "" || isUnmapped E user || shortName (qualify domain user) ∉ refusedOwners

variable {q : Queue E}

theorem begin_proper (hd : isUnmapped E ("@" ++ q.domain) = false) {user : String}
    (h : namesUser E q.domain user = true) : (begin q user).Proper q.domain := by
  unfold begin
  by_cases hm : isUnmapped E user = true
  · simp only [hm, if_true]
    exact ⟨fun hne => absurd rfl hne, fun hne => absurd rfl hne, fun _ => ⟨rfl, rfl⟩⟩
  · rw [Bool.not_eq_true] at hm
    simp only [hm, Bool.false_eq_true, if_false]
    have hrespectable : user ≠ "" → Respectable E (qualify q.domain user) := fun hne =>
      ⟨by simpa [namesUser, hne, hm] using h, isUnmapped_qualify hd hm⟩
    exact ⟨hrespectable, fun hne => ⟨hrespectable hne, rfl⟩, fun _ => ⟨rfl, rfl⟩⟩

/-- **Switching the owner.** Whoever asks for whatever name, the transaction goes on for a respectable user. -/
theorem setEffectiveOwner_proper (hd : isUnmapped E ("@" ++ q.domain) = false) {t t' : Txn E}
    (ht : t.Proper q.domain) {owner : String} (h : t.setEffectiveOwner q owner = .ok t') : t'.Proper q.domain := by
  obtain ⟨hauth, hpending, hdestroyed⟩ := setEffectiveOwner_frame h
  refine ⟨fun hne => hauth ▸ ht.own (hauth ▸ hne), fun hne => ?_, fun he => ?_⟩
  · rw [hauth] at hne
    unfold setEffectiveOwner at h
    split_ifs at h with h1 h2 h3 h4 h5 h6
    · cases h
      exact ht.user hne
    · -- back to the authenticated identity
      cases h
      exact ⟨ht.own hne, rfl⟩
    · cases h
      push Not at h4 h5
      refine ⟨.qualify hd ?_ (by simpa using h4.2), rfl⟩
      simp [refusedOwners, h4.1, h5.1, h5.2]
  · have hb := ht.blank (hauth ▸ he)
    exact ⟨hpending.trans hb.pending, hdestroyed.trans hb.destroyed⟩

/-- requests of a caller without an identity stage nothing -/
theorem step_unidentified {t : Txn E} (ha : t.authUser = "") (hb : t.Blank) (o : Op) :
    (step (q, t) o).2.authUser = "" ∧ (step (q, t) o).2.Blank := by
  cases o with
  | newCluster => simp only [step, newCluster_unidentified ha]; exact ⟨ha, hb⟩
  | newProc => simp only [step, newProc_unidentified ha]; exact ⟨ha, hb⟩
  | setEffectiveOwner =>
    simp only [step]
    split
    · rename_i t' h
      obtain ⟨hauth, hpending, hdestroyed⟩ := setEffectiveOwner_frame h
      exact ⟨hauth.trans ha, hpending.trans hb.pending, hdestroyed.trans hb.destroyed⟩
    · exact ⟨ha, hb⟩
  | setAttribute => simp only [step, setAttribute_unidentified ha]; exact ⟨ha, hb⟩
  | deleteAttribute => simp only [step, deleteAttribute_unidentified ha]; exact ⟨ha, hb⟩
  | destroyProc => simp only [step, destroyProc_unidentified ha]; exact ⟨ha, hb⟩
  | destroyCluster => simp only [step, destroyCluster_unidentified ha]; exact ⟨ha, hb⟩
  | setAllowProtectedChanges => exact ⟨ha, hb.pending, hb.destroyed⟩
  | addError msg => exact ⟨ha, hb.addError msg⟩

/-- every request but a switch of the owner leaves the user the transaction works for -/
theorem Effect.user {t t' : Txn E} {o : Op} (h : Effect q t o t')
    (ho : ∀ name, o ≠ .setEffectiveOwner name) : t'.authUser = t.authUser ∧ t'.user = t.user ∧ t'.owner = t.owner := by
  cases h with
  | setEffectiveOwner name => exact absurd rfl (ho name)
  | _ => exact ⟨rfl, rfl, rfl⟩

theorem step_proper (hd : isUnmapped E ("@" ++ q.domain) = false) {t : Txn E} (ht : t.Proper q.domain)
    (o : Op) : (step (q, t) o).2.Proper q.domain := by
  by_cases hauth : t.authUser = ""
  · obtain ⟨ha, hb⟩ := step_unidentified (q := q) hauth (ht.blank hauth) o
    exact ⟨fun hne => absurd ha hne, fun hne => absurd ha hne, fun _ => hb⟩
  · by_cases ho : ∃ name, o = .setEffectiveOwner name
    · obtain ⟨_, rfl⟩ := ho
      simp only [step]
      split
      · rename_i t' h
        exact setEffectiveOwner_proper hd ht h
      · exact ht
    · push Not at ho
      obtain ⟨ha, huser, howner⟩ := (step_effect (q, t) o).user ho
      refine ⟨fun _ => ha ▸ ht.own hauth, fun _ => ?_, fun he => absurd (ha.symm.trans he) hauth⟩
      rw [huser, howner]
      exact ht.user hauth

end Txn

/-! ## The queue -/

namespace Sys

/-- the ad stored at `k` has no Owner of its own -/
def inherits (s : Sys E) (k : JobKey) : Bool := (s.q.coll.lookup k).any fun own => (own .owner).isNone

/-- a cluster ad among `gone` goes together with the procs that have their owner from it -/
def KeepsHeirs (s : Sys E) (gone : List JobKey) : Prop :=
  ∀ k ∈ s.q.coll.keys, s.inherits k = true → clusterKey k.cluster ∈ gone → k ∈ gone

/-- an event that names no refused owner: a transaction begins for a user who may own jobs, a proc is materialized
beside its cluster ad from a digest that sets neither Owner nor User, and no proc is left to inherit from a cluster ad
that is gone -/
def Discreet (s : Sys E) : Event E → Prop
  | .begin _ user => Txn.namesUser E s.q.domain user = true
  | .materialize i _ override _ _ _ _ =>
    (∀ p ∈ s.copies[i]?, p.1.proc = -1) ∧ (override .owner).isNone = true ∧ (override .user).isNone = true
  | .commit conn _ _ => ∀ t ∈ s.txns.lookup conn, s.KeepsHeirs t.destroyed
  | .delete k => s.KeepsHeirs [k]
  | _ => True

instance (s : Sys E) (gone : List JobKey) : Decidable (s.KeepsHeirs gone) := by
  unfold KeepsHeirs
  infer_instance

instance (s : Sys E) (ev : Event E) : Decidable (s.Discreet ev) :=
  match ev with
  | .begin _ user => inferInstanceAs (Decidable (Txn.namesUser E s.q.domain user = true))
  | .materialize i _ override _ _ _ _ => inferInstanceAs (Decidable
      ((∀ p ∈ s.copies[i]?, p.1.proc = -1) ∧ (override .owner).isNone = true ∧ (override .user).isNone = true))
  | .commit conn _ _ => inferInstanceAs (Decidable (∀ t ∈ s.txns.lookup conn, s.KeepsHeirs t.destroyed))
  | .delete k => inferInstanceAs (Decidable (s.KeepsHeirs [k]))
  | .request .. | .abort .. | .setAuthz .. | .read .. | .write .. | .archive .. | .unnoteFactory .. => .isTrue trivial

/-- the ads of a store: a cluster ad is owned well, a proc is or inherits from one that is -/
structure Owned (coll : Store E) : Prop where
  clusters : ∀ c ad, coll.lookup (clusterKey c) = some ad → ad.OwnedWell
  procs : ∀ k own, 0 ≤ k.proc → coll.lookup k = some own →
    own.OwnedWell ∨ own .owner = none ∧ own .user = none ∧ ∃ ad, coll.lookup (clusterKey k.cluster) = some ad

/-- what is stored, what writers have read and what transactions would commit -/
structure Names (s : Sys E) : Prop where
  stored : Owned s.q.coll
  copied : ∀ k ad, (k, ad) ∈ s.copies → -1 ≤ k.proc → ad.OwnedWell
  txns : ∀ conn t, s.txns.lookup conn = some t → t.Proper s.q.domain

variable {coll : Store E}

/-- **The flattened ad is owned well**, whether the owner is the ad's own or its cluster's. -/
theorem Owned.get (h : Owned coll) {k : JobKey} (hk : -1 ≤ k.proc) (hg : coll.get k = some ad) : ad.OwnedWell := by
  obtain ⟨own, hown, rfl⟩ := get_eq_some.1 hg
  rcases lt_or_ge k.proc 0 with hneg | hp
  · have hkey : k = clusterKey k.cluster := eq_clusterKey (by omega)
    rw [hkey] at hown
    exact (h.clusters k.cluster own hown).chainTo _
  · rcases h.procs k own hp hown with hwell | ⟨ho, hu, cad, hcad⟩
    · exact hwell.chainTo _
    · have hparent : parentAd coll k = cad := by rw [parentAd_proc _ hp, hcad]; rfl
      rw [hparent]
      exact (h.clusters k.cluster cad hcad).congr (by simp [ho]) (by simp [hu])

/-- one more ad that is owned well -/
theorem Owned.put (h : Owned coll) (k : JobKey) (had : ad.OwnedWell) : Owned (coll.put k ad) := by
  refine ⟨fun c ad' hl => ?_, fun k' own hp hl => ?_⟩
  · rw [lookup_put] at hl
    split_ifs at hl
    · cases hl; exact had
    · exact h.clusters c ad' hl
  · rw [lookup_put] at hl
    split_ifs at hl
    · cases hl; exact .inl had
    · refine (h.procs k' own hp hl).imp_right fun ⟨ho, hu, cad, hcad⟩ => ⟨ho, hu, ?_⟩
      rw [lookup_put]
      split_ifs
      · exact ⟨ad, rfl⟩
      · exact ⟨cad, hcad⟩

/-- a materialized proc without an owner of its own, beside its cluster ad -/
theorem Owned.materialize (h : Owned coll) {c proc : ℤ} {own cluster : Ad E} (ho : own .owner = none)
    (hu : own .user = none) (hcl : cluster.OwnedWell) :
    Owned ((coll.put ⟨c, proc⟩ own).put (clusterKey c) cluster) := by
  refine ⟨fun c' ad hl => ?_, fun k own' hp hl => ?_⟩
  · rw [lookup_put, lookup_put] at hl
    split_ifs at hl with h1 h2
    · cases hl; exact hcl
    · -- proc -1 is the cluster ad, which is written last
      refine absurd ?_ h1
      rw [show c' = c from congrArg JobKey.cluster h2]
    · exact h.clusters c' ad hl
  · rw [lookup_put, lookup_put] at hl
    split_ifs at hl with h1 h2
    · cases hl; exact .inl hcl
    · cases hl
      refine .inr ⟨ho, hu, cluster, ?_⟩
      rw [h2, lookup_put, if_pos rfl]
    · refine (h.procs k own' hp hl).imp_right fun ⟨ho, hu, cad, hcad⟩ => ⟨ho, hu, ?_⟩
      by_cases hk : k.cluster = c
      · exact ⟨cluster, by rw [hk, lookup_put, if_pos rfl]⟩
      · have hne : clusterKey k.cluster ≠ clusterKey c := fun he => hk (congrArg JobKey.cluster he)
        have hne' : clusterKey k.cluster ≠ ⟨c, proc⟩ := fun he => hk (congrArg JobKey.cluster he)
        exact ⟨cad, by rw [lookup_put, if_neg hne, lookup_put, if_neg hne', hcad]⟩

variable {s : Sys E}

/-- the ads that stay when the keys of `gone` leave, and others that are owned well are written -/
theorem Owned.replace (h : Owned s.q.coll) {gone : List JobKey} (hgone : s.KeepsHeirs gone)
    (hcoll : ∀ k, coll.lookup k = none ∧ k ∈ gone ∨ k ∉ gone ∧
      ((∃ ad, coll.lookup k = some ad ∧ ad.OwnedWell) ∨ coll.lookup k = s.q.coll.lookup k)) : Owned coll := by
  refine ⟨fun c ad hl => ?_, fun k own hp hl => ?_⟩
  · rcases hcoll (clusterKey c) with ⟨hnone, -⟩ | ⟨-, ⟨ad', had, hwell⟩ | hsame⟩
    · rw [hl] at hnone; cases hnone
    · rw [hl] at had; cases had; exact hwell
    · exact h.clusters c ad (hsame ▸ hl)
  · rcases hcoll k with ⟨hnone, -⟩ | ⟨hk, ⟨ad', had, hwell⟩ | hsame⟩
    · rw [hl] at hnone; cases hnone
    · rw [hl] at had; cases had; exact .inl hwell
    · rw [hsame] at hl
      refine (h.procs k own hp hl).imp_right fun ⟨ho, hu, cad, hcad⟩ => ⟨ho, hu, ?_⟩
      have hmem : k ∈ s.q.coll.keys := AList.mem_keys.1 (AList.lookup_isSome.1 (by rw [hl]; rfl))
      have hheir : s.inherits k = true := by simp [inherits, hl, ho]
      rcases hcoll (clusterKey k.cluster) with ⟨-, hc⟩ | ⟨-, ⟨ad', had, -⟩ | hsame'⟩
      · exact absurd (hgone k hmem hheir hc) hk
      · exact ⟨ad', had⟩
      · exact ⟨cad, hsame'.trans hcad⟩

theorem Owned.commit (h : Owned s.q.coll) {t : Txn E} (ht : t.Proper s.q.domain)
    (hgone : s.KeepsHeirs t.destroyed) (now : ℤ) (updErr : Option String) :
    Owned (Txn.commit s.q t now updErr).2.1.coll := by
  by_cases hauth : t.authUser = ""
  · rw [(ht.blank hauth).commit]
    exact h
  · obtain ⟨hr, howner⟩ := ht.user hauth
    rcases hc : Txn.commit s.q t now updErr with ⟨_ | _, _, _⟩
    · rw [Txn.commit_ok hc]
      refine h.replace hgone fun k => ?_
      rw [committed_lookup]
      by_cases hd : k ∈ t.destroyed
      · exact .inl ⟨if_pos hd, hd⟩
      · refine .inr ⟨hd, ?_⟩
        rw [if_neg hd]
        cases stagedAtCommit t k with
        | none => exact .inr rfl
        | some ad =>
          refine .inl ⟨_, rfl, t.user, hr, ?_, ?_⟩
          · rw [← howner]; exact materialize_apply s.q t ad k now .owner
          · exact materialize_apply s.q t ad k now .user
    · rw [(commit_error_keeps hc).1]
      exact h

theorem names_init (opts : Options) : Names (init opts : Sys E) where
  stored := ⟨fun c ad h => by simp [init, Queue.openNew] at h, fun k ad _ h => by simp [init, Queue.openNew] at h⟩
  copied := fun k ad h => by simp [init] at h
  txns := fun conn t h => by simp [init] at h

theorem commit_domain (q : Queue E) (t : Txn E) (now : ℤ) (updErr : Option String) :
    (Txn.commit q t now updErr).2.1.domain = q.domain := by
  rcases hc : commit q t now updErr with ⟨_ | _, _, _⟩
  · rw [commit_ok hc]; rfl
  · rw [(commit_error_keeps hc).1]

/-- no event changes `UID_DOMAIN` -/
theorem step_domain (s : Sys E) (ev : Event E) : (step s ev).q.domain = s.q.domain := by
  cases ev with
  | request conn op =>
    simp only [step]
    split
    · rfl
    · exact (step_base _ op).domain
  | commit =>
    simp only [step]
    split
    · rfl
    · exact commit_domain ..
  | read | write | materialize => simp only [step]; split <;> rfl
  | _ => rfl

/-- **The step.** -/
theorem names_inv (hd : isUnmapped E ("@" ++ s.q.domain) = false) {ev : Event E} (hev : s.Discreet ev)
    (h : Names s) : Names (step s ev) := by
  cases ev with
  | begin =>
    refine ⟨h.stored, h.copied, fun conn' t ht => ?_⟩
    simp only [step, KeyMap.lookup_insert_ite] at ht
    split_ifs at ht
    · cases ht; exact begin_proper hd hev
    · exact h.txns conn' t ht
  | request conn op =>
    simp only [step]
    split
    · exact h
    · rename_i t ht
      have hbase := step_base (s.q, t) op
      refine ⟨?_, h.copied, fun conn' t' ht' => ?_⟩
      · show Owned (Txn.step (s.q, t) op).1.coll
        rw [hbase.coll]
        exact h.stored
      · show t'.Proper (Txn.step (s.q, t) op).1.domain
        rw [hbase.domain]
        simp only [KeyMap.lookup_insert_ite] at ht'
        split_ifs at ht'
        · cases ht'; exact step_proper hd (h.txns conn t ht) op
        · exact h.txns conn' t' ht'
  | commit conn now updErr =>
    simp only [step]
    split
    · exact h
    · rename_i t ht
      refine ⟨h.stored.commit (h.txns conn t ht) (hev t ht) now updErr, h.copied, fun conn' t' ht' => ?_⟩
      rw [commit_domain]
      by_cases he : conn' = conn
      · subst he; simp at ht'
      · exact h.txns conn' t' (by rwa [AList.lookup_erase_ne he] at ht')
  | abort conn =>
    refine ⟨h.stored, h.copied, fun conn' t ht => ?_⟩
    by_cases he : conn' = conn
    · subst he; simp [step] at ht
    · exact h.txns conn' t (by rwa [step, AList.lookup_erase_ne he] at ht)
  | setAuthz | archive | unnoteFactory => exact ⟨h.stored, h.copied, h.txns⟩
  | read =>
    simp only [step]
    split
    · exact h
    · rename_i ad hg
      refine ⟨h.stored, fun k' ad' hm hk => ?_, h.txns⟩
      rcases mem_append.1 hm with hm | hm
      · exact h.copied k' ad' hm hk
      · cases mem_singleton.1 hm
        exact h.stored.get hk hg
  | write i f =>
    simp only [step]
    split
    · exact h
    · rename_i k ad hi
      refine ⟨?_, h.copied, h.txns⟩
      by_cases hk : -1 ≤ k.proc
      · have hwell := h.copied k ad (mem_of_getElem? hi) hk
        exact h.stored.put k (hwell.congr (f.keeps ad .owner (by simp [identityAttrs]))
          (f.keeps ad .user (by simp [identityAttrs])))
      · -- a key that is neither a job's nor a cluster's
        refine ⟨fun c ad' hl => h.stored.clusters c ad' ?_, fun k' own hp hl => ?_⟩
        · rwa [lookup_put, if_neg (fun he => hk (by rw [← he]; simp))] at hl
        · have hne : k' ≠ k := fun he => hk (by rw [← he]; omega)
          rw [lookup_put, if_neg hne] at hl
          have hcl : clusterKey k'.cluster ≠ k := fun he => hk (by rw [← he]; simp)
          simpa [lookup_put, hcl] using h.stored.procs k' own hp hl
  | materialize =>
    simp only [step]
    split
    · exact h
    · rename_i k cluster hi
      obtain ⟨hkey, ho, hu⟩ := hev
      have hcl := h.copied k cluster (mem_of_getElem? hi) (hkey _ hi).ge
      refine ⟨h.stored.materialize ?_ ?_ (hcl.congr (Queue.advancedCluster_apply _ _ _ _ _ (by decide))
        (Queue.advancedCluster_apply _ _ _ _ _ (by decide))), h.copied, h.txns⟩
      · rw [Queue.materializedProc_apply, Option.isNone_iff_eq_none.1 ho]; rfl
      · rw [Queue.materializedProc_apply, Option.isNone_iff_eq_none.1 hu]; rfl
  | delete k =>
    refine ⟨h.stored.replace hev fun k' => ?_, h.copied, h.txns⟩
    simp only [step, lookup_delete, mem_singleton]
    by_cases hk : k' = k <;> simp [hk]

/-- **No job of root's, of LOCAL_SYSTEM's or of nobody.** In every run from an empty queue in which callers authenticate
under names that may own jobs, digests set neither Owner nor User and no inheriting proc outlives its cluster ad,
whatever owners super users switch to: no job has a refused Owner or an unmapped User. -/
theorem owners_respectable (opts : Options) (hd : isUnmapped E ("@" ++ opts.uidDomain) = false) (evs : List (Event E))
    (hevs : Runs.Meets step Discreet (init opts) evs) (k : JobKey) (hk : 0 ≤ k.proc) (ad : Ad E)
    (hg : (run (init opts) evs).q.coll.get k = some ad) :
    (ad.evaluateAttrString .owner).getD "" ∉ refusedOwners ∧
      isUnmapped E ((ad.evaluateAttrString .user).getD "") = false := by
  have hinv : Names (run (init opts) evs) ∧ (run (init opts) evs).q.domain = opts.uidDomain :=
    Runs.foldl_inv_of (P := fun s : Sys E => Names s ∧ s.q.domain = opts.uidDomain)
      (fun s ev hev ⟨hn, hdom⟩ => ⟨names_inv (hdom ▸ hd) hev hn, (step_domain s ev).trans hdom⟩)
      ⟨names_init opts, rfl⟩ hevs
  obtain ⟨_, hr, howner, huser⟩ := hinv.1.stored.get (by omega) hg
  rw [Ad.evaluateAttrString_lit howner, Ad.evaluateAttrString_lit huser]
  exact ⟨hr.name, hr.mapped⟩

end Sys

end

/-! ## Runs -/

/-- condor submits a factory for bob, after it was refused for root; the factory makes a proc -/
def condorForBob : List (Sys.Event Value) :=
  [.begin 0 "condor@pool", .request 0 (.setEffectiveOwner "bob"), .request 0 (.setEffectiveOwner "root@pool"),
    .request 0 (.newCluster none),
    .request 0 (.setAttribute (clusterKey 1) "JobMaterializeDigestFile" "\"/spool/1/d\""), .commit 0 100 none,
    .read (clusterKey 1), .materialize 0 0 Ad.empty 1 1 0 101]

namespace Sys

theorem bob_owns_made_job :
    ((run (init poolOptions) condorForBob).q.coll.get ⟨1, 0⟩).map (fun ad => ad .owner) = some (some (.str "bob")) ∧
      ∀ ad, (run (init poolOptions) condorForBob).q.coll.get ⟨1, 0⟩ = some ad →
        (ad.evaluateAttrString .owner).getD "" ∉ refusedOwners ∧
          isUnmapped Value ((ad.evaluateAttrString .user).getD "") = false :=
  ⟨by decide +kernel, fun ad hg =>
    owners_respectable poolOptions (by decide +kernel) condorForBob (by decide +kernel) ⟨1, 0⟩ (by decide) ad hg⟩

/-- **Root submits as root.** `SetEffectiveOwner` refuses the name, `Begin` does not. -/
theorem root_submits :
    ((run (init poolOptions : Sys Value) [.begin 0 "root@pool", .request 0 (.newCluster none), .request 0 (.newProc 1),
        .commit 0 100 none]).q.coll.get ⟨1, 0⟩).map (fun ad => ad .owner) = some (some (.str "root")) ∧
      "root" ∈ refusedOwners := by
  decide +kernel

end Sys

end AccessPoint
