/-
The two reads of a job inside a transaction (internal/queue/txn.go, `GetAttribute` and `GetJobAd`;
internal/qmgmt/handler.go, `replyGetAttribute`).

`GetAttribute` looks at the deletion marks, the staged ad of the job, the staged ad of its cluster, and the committed
ad, in this order. `GetJobAd` lays the staged ad of the job over the committed ad and looks at nothing else. A deletion
and an attribute staged on the cluster ad are therefore seen by one of them only, and a typed GetAttribute reply, which
takes the text from the first and the number from the second, describes two different jobs.

- `getAttributeExpr_eq_iff`: when the two agree on one attribute.
- `read_paths_agree`: after requests that delete nothing under that name and set nothing of that name on the cluster ad.
- `read_paths_differ`: a deletion, and a priority set on the cluster ad.
-/
import AccessPoint.Qmgmt.Handler
import AccessPoint.Queue.ReadYourWrites

namespace AccessPoint

open ClassAdLib

variable {E : Type} [ClassAdLib E]

namespace Txn

/-- the expression of an attribute in the ad `GetJobAd` returns -/
def jobAdExpr (q : Queue E) (t : Txn E) (k : JobKey) (a : Attr) : Option E :=
  (t.getJobAd q k).bind fun ad => ad.lookup a

omit [ClassAdLib E] in
theorem jobAdExpr_eq (q : Queue E) (t : Txn E) (k : JobKey) (a : Attr) :
    jobAdExpr q t k a = (t.staged k a).or ((q.coll.get k).bind fun ad => ad.lookup a) := by
  unfold jobAdExpr getJobAd staged
  cases q.coll.get k with
  | none =>
    cases t.pending.lookup k with
    | none => rfl
    | some => simp
  | some =>
    cases t.pending.lookup k with
    | none => simp
    | some => rfl

/-- nothing that only `GetAttribute` looks at bears on the attribute: if the name is marked as deleted then there is
nothing to delete, and otherwise the cluster ad has nothing staged that the job's own ads do not have -/
def Unmasked (q : Queue E) (t : Txn E) (k : JobKey) (name : String) : Prop :=
  ((k, name) ∈ t.delAttrs → t.staged k (canon E name) = none ∧
    (q.coll.get k).bind (fun ad => ad.lookup (canon E name)) = none) ∧
  ((k, name) ∉ t.delAttrs → t.staged k (canon E name) = none → 0 ≤ k.proc →
    ∀ e, t.staged (clusterKey k.cluster) (canon E name) = some e →
      (q.coll.get k).bind (fun ad => ad.lookup (canon E name)) = some e)

/-- **When the two reads agree.** -/
theorem getAttributeExpr_eq_iff (q : Queue E) (t : Txn E) (k : JobKey) (name : String) :
    getAttributeExpr q t k name = jobAdExpr q t k (canon E name) ↔ Unmasked q t k name := by
  rw [jobAdExpr_eq]
  unfold getAttributeExpr Unmasked
  by_cases hdel : (k, name) ∈ t.delAttrs
  · rw [if_pos hdel, eq_comm, Option.or_eq_none_iff]
    simp [hdel]
  · rw [if_neg hdel]
    simp only [hdel, false_imp_iff, true_and, not_false_eq_true, true_imp_iff]
    rw [pending_bind, pending_bind]
    cases hown : t.staged k (canon E name) with
    | some => simp
    | none =>
      by_cases hk : 0 ≤ k.proc
      · cases hinh : t.staged (clusterKey k.cluster) (canon E name) with
        | none => simp [hk]
        | some => simp [hk, eq_comm]
      · simp [hk]

/-! ## Requests -/

/-- a deletion mark comes from a deletion -/
theorem step_delAttrs (s : Queue E × Txn E) (o : Op) {k : JobKey} {name : String}
    (h : (k, name) ∈ (step s o).2.delAttrs) :
    (k, name) ∈ s.2.delAttrs ∨ o = .deleteAttribute k name := by
  cases o with
  | setAttribute k' name' value =>
    left
    change (k, name) ∈ (setAttribute s.1 s.2 k' name' value).2.delAttrs at h
    unfold setAttribute at h
    by_cases hv : value = ""
    · rw [if_pos hv] at h
      exact h
    · rw [if_neg hv] at h
      split at h
      · exact h
      · exact h
      · split at h
        · split_ifs at h <;> exact h
        · exact (List.mem_filter.1 h).1
  | deleteAttribute k' =>
    simp only [step, deleteAttribute] at h
    split at h
    · exact .inl h
    · exact .inl h
    · rcases List.mem_cons.1 h with he | hin
      · cases he
        exact .inr rfl
      · left
        cases hl : s.2.pending.lookup k' with
        | none => simpa [hl] using hin
        | some => simpa [hl, stage] using hin
  | newCluster putErr =>
    left
    simp only [step, newCluster] at h
    split_ifs at h
    · exact h
    · cases putErr <;> exact h
  | newProc =>
    left
    simp only [step, newProc] at h
    split_ifs at h <;> exact h
  | destroyProc =>
    left
    simp only [step, destroyProc] at h
    split_ifs at h
    · exact h
    · split at h <;> exact h
  | destroyCluster =>
    left
    simp only [step, destroyCluster] at h
    split_ifs at h
    · exact h
    · split at h
      · exact h
      · split at h <;> exact h
  | setEffectiveOwner =>
    left
    simp only [step, setEffectiveOwner] at h
    split_ifs at h <;> exact h
  | setAllowProtectedChanges | addError => exact .inl h

/-- the requests neither delete the attribute of the job under that name nor set it on the cluster ad -/
def LeavesTo (E : Type) [ClassAdLib E] (k : JobKey) (name : String) (o : Op) : Prop :=
  o ≠ .deleteAttribute k name ∧
    ∀ name' value, o = .setAttribute (clusterKey k.cluster) name' value → canon E name' ≠ canon E name ∨ k.proc < 0

theorem session_unmasked (q : Queue E) (user : String) {ops : List Op} {k : JobKey} {name : String}
    (hops : ∀ o ∈ ops, LeavesTo E k name o) (q' : Queue E) : Unmasked q' (session q user ops).2 k name := by
  have hinv : (k, name) ∉ (session q user ops).2.delAttrs ∧
      (0 ≤ k.proc → (session q user ops).2.staged (clusterKey k.cluster) (canon E name) = none) := by
    let P : Queue E × Txn E → Prop := fun s => (k, name) ∉ s.2.delAttrs ∧
      (0 ≤ k.proc → s.2.staged (clusterKey k.cluster) (canon E name) = none)
    have hstart : P (q, begin q user) := ⟨List.not_mem_nil, fun _ => rfl⟩
    refine List.foldlRecOn (motive := P) ops step hstart ?_
    rintro s ⟨hdel, hcluster⟩ o ho
    refine ⟨fun hin => ?_, fun hk => ?_⟩
    · rcases step_delAttrs s o hin with hin | he
      · exact hdel hin
      · exact (hops o ho).1 he
    · rcases (step_effect s o).staged_attr (clusterKey k.cluster) (canon E name) with hkeep | hnone | hset
      · exact hkeep.trans (hcluster hk)
      · exact hnone
      · obtain ⟨name', value, e, he, hname, -⟩ := hset
        rcases (hops o ho).2 name' value he with hne | hneg
        · exact absurd hname hne
        · omega
  refine ⟨fun hdel => absurd hdel hinv.1, fun _ _ hk e he => ?_⟩
  rw [hinv.2 hk] at he
  cases he

end Txn

/-! ## Replies -/

namespace Server

/-- every typed reply to a read of the attribute describes the ad `GetJobAd` returns -/
structure Describes (srv : Server E) (t : Txn E) (k : JobKey) (name : String) : Prop where
  missing : t.jobAdExpr srv.q k (canon E name) = none →
    ∀ kind, srv.replyGetAttribute t kind k name = .status (-1) eNOENT
  found : ∀ ad e, t.getJobAd srv.q k = some ad → ad (canon E name) = some e →
    srv.replyGetAttribute t .expr k name = .text (render e) ∧
      srv.replyGetAttribute t .string k name = .text (render e) ∧
      srv.replyGetAttribute t .int k name = .int (ad.int0 (canon E name)) ∧
      ∀ r, ad.evaluateAttr (canon E name) = .real r → srv.replyGetAttribute t .float k name = .real r

theorem describes_of_eq {srv : Server E} {t : Txn E} {k : JobKey} {name : String}
    (h : t.getAttributeExpr srv.q k name = t.jobAdExpr srv.q k (canon E name)) : srv.Describes t k name where
  missing := by
    intro hnone kind
    simp [replyGetAttribute, Txn.getAttribute, h, hnone]
  found := by
    intro ad e hjob hattr
    have hfound : t.getAttribute srv.q k name = some (render e) := by
      simp [Txn.getAttribute, h, Txn.jobAdExpr, hjob, hattr]
    refine ⟨?_, ?_, ?_, fun r hr => ?_⟩
    · simp [replyGetAttribute, hfound]
    · simp [replyGetAttribute, hfound]
    · simp [replyGetAttribute, hfound, hjob]
    · simp [replyGetAttribute, hfound, hjob, hr]

end Server

namespace Txn

/-- **Both read paths of a transaction agree** after any requests that delete no attribute of the job under that name
and, of a proc, set none of that name on its cluster ad; the typed replies then describe the job `GetJobAd` returns. -/
theorem read_paths_agree (q : Queue E) (user : String) (ops : List Op) (k : JobKey) (name : String)
    (hops : ∀ o ∈ ops, LeavesTo E k name o) :
    let s := session q user ops
    getAttributeExpr s.1 s.2 k name = jobAdExpr s.1 s.2 k (canon E name) ∧
      ∀ srv : Server E, srv.q = s.1 → srv.Describes s.2 k name := by
  intro s
  have h := (getAttributeExpr_eq_iff s.1 s.2 k name).2 (session_unmasked q user hops s.1)
  refine ⟨h, fun srv hq => Server.describes_of_eq ?_⟩
  rw [hq]
  exact h

/-- alice changes the priority of the job -/
theorem own_priority_read_alike :
    let s := session aliceQueue "alice@pool" [.setAttribute ⟨1, 0⟩ "JobPrio" "7"]
    getAttributeExpr s.1 s.2 ⟨1, 0⟩ "JobPrio" = jobAdExpr s.1 s.2 ⟨1, 0⟩ (canon Value "JobPrio") ∧
      ∀ srv : Server Value, srv.q = s.1 → srv.Describes s.2 ⟨1, 0⟩ "JobPrio" :=
  read_paths_agree aliceQueue "alice@pool" [.setAttribute ⟨1, 0⟩ "JobPrio" "7"] ⟨1, 0⟩ "JobPrio" (by
    intro o ho
    obtain rfl := List.mem_singleton.1 ho
    exact ⟨(fun h => nomatch h), (fun name' value h => nomatch h)⟩)

/-- **The two reads differ.** A deleted attribute is still in the ad; a priority set on the cluster ad is read as text
and as the number 0, and is not in the ad. -/
theorem read_paths_differ :
    let deleted := session aliceQueue "alice@pool" [.deleteAttribute ⟨1, 0⟩ "Cmd"]
    let raised := session aliceQueue "alice@pool" [.setAttribute (clusterKey 1) "JobPrio" "7"]
    let srv : Server Value := ⟨raised.1, "/spool", ∅⟩
    getAttributeExpr deleted.1 deleted.2 ⟨1, 0⟩ "Cmd" = none ∧
      jobAdExpr deleted.1 deleted.2 ⟨1, 0⟩ .cmd = some (.str "/bin/true") ∧
      srv.replyGetAttribute raised.2 .expr ⟨1, 0⟩ "JobPrio" = .text "7" ∧
      srv.replyGetAttribute raised.2 .int ⟨1, 0⟩ "JobPrio" = .int 0 ∧
      jobAdExpr raised.1 raised.2 ⟨1, 0⟩ .jobPrio = none := by
  intro deleted raised srv
  have htext : raised.2.getAttribute srv.q ⟨1, 0⟩ "JobPrio" = some "7" := by decide +kernel
  have hnumber : ((raised.2.getJobAd srv.q ⟨1, 0⟩).getD Ad.empty).int0 (canon Value "JobPrio") = 0 := by decide +kernel
  refine ⟨by decide +kernel, by decide +kernel, ?_, ?_, by decide +kernel⟩
  · simp only [Server.replyGetAttribute, htext]
  · simp only [Server.replyGetAttribute, htext, hnumber]

end Txn

end AccessPoint
