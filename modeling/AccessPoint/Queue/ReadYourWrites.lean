/-
Reads inside a transaction and the commit that follows them (internal/queue/txn.go, `GetAttribute` and `Commit`).

Three structures answer a read: the deletion marks, kept under the spelling the client used; the staged ads; the
committed flattened ad. The commit uses only the staged ads. `lastAccepted` is the specification: the last request on an
attribute of a key that was accepted and not ignored, with the expression it set or `none` for a deletion.

- `hidden`, `rewritten`: what the requests made so far say about the marks and about the ads a commit replaces.
- `session_edited`: the marks and the staged ads hold exactly what the accepted requests left there.
- `reads_predict_commit_iff`: for which requests a read before the commit and the flattened ad after it both give that
  answer.
- `unparsed_set_is_not_read`: a short transaction in which they do not.
-/
import AccessPoint.Queue.EditFrame

namespace AccessPoint

open ClassAdLib

variable {E : Type}

namespace Txn

theorem stage_staged (t : Txn E) (k k' : JobKey) (ad : Ad E) :
    (t.stage k ad).staged k' = if k' = k then ad else t.staged k' := by
  unfold staged
  rw [stage_lookup]
  split_ifs <;> rfl

theorem pending_bind (t : Txn E) (k : JobKey) (a : Attr) :
    ((t.pending.lookup k).bind fun ad => ad.lookup a) = t.staged k a := by
  unfold staged
  cases t.pending.lookup k <;> rfl

variable [ClassAdLib E]

/-- a `SetAttribute` or `DeleteAttribute` request -/
def Op.isEdit : Op → Bool
  | .setAttribute _ _ _ => true
  | .deleteAttribute _ _ => true
  | _ => false

/-- what one request, if accepted and not ignored, makes of attribute `a` of `k` -/
def accepted (q : Queue E) (t : Txn E) (k : JobKey) (a : Attr) : Op → Option (Option E)
  | .setAttribute k' name value =>
    if k' = k ∧ canon E name = a ∧ value ≠ "" ∧ authorize q t k' name = .allow then
      (acceptedExpr name value).map some
    else none
  | .deleteAttribute k' name => if k' = k ∧ canon E name = a ∧ authorize q t k' name = .allow then some none else none
  | _ => none

/-- the last accepted request on attribute `a` of `k`: the expression it set, or `some none` for a deletion -/
def lastAccepted (q : Queue E) (t : Txn E) (k : JobKey) (a : Attr) (ops : List Op) : Option (Option E) :=
  ops.foldl (fun last o => (accepted q t k a o).or last) none

/-- what one request, if it is accepted, does to the deletion mark of this spelling of a name: a deletion sets it, a set
whose value parses clears it -/
def marks (q : Queue E) (t : Txn E) (k : JobKey) (name : String) : Op → Option Bool
  | .setAttribute k' name' value =>
    if k' = k ∧ name' = name ∧ value ≠ "" ∧ authorize q t k' name' = .allow ∧
      (parseExpr value : Except String E).isOk = true then some false else none
  | .deleteAttribute k' name' => if k' = k ∧ name' = name ∧ authorize q t k' name' = .allow then some true else none
  | _ => none

/-- of the accepted deletions and parsed sets in this very spelling, the last is a deletion -/
def hidden (q : Queue E) (t : Txn E) (k : JobKey) (name : String) (ops : List Op) : Bool :=
  ops.foldl (fun mark o => (marks q t k name o).getD mark) false

/-- an allowed set on a key in `p`, which stages its ad -/
def stages (q : Queue E) (t : Txn E) (p : JobKey → Bool) : Op → Bool
  | .setAttribute k name value => p k && (value ≠ "" && authorize q t k name = .allow)
  | _ => false

/-- some ad of the cluster was set, so that its cluster ad is rewritten -/
def touched (q : Queue E) (t : Txn E) (c : ℤ) (ops : List Op) : Bool := ops.any (stages q t (·.cluster = c))

/-- the commit replaces the ad of `k`: it was set itself, or is the cluster ad of a touched cluster -/
def rewritten (q : Queue E) (t : Txn E) (k : JobKey) (ops : List Op) : Bool :=
  ops.any (stages q t (· = k)) || (k.proc = -1 && touched q t k.cluster ops)

variable (q : Queue E)

theorem lastAccepted_snoc (t : Txn E) (k : JobKey) (a : Attr) (ops : List Op) (o : Op) :
    lastAccepted q t k a (ops ++ [o]) = (accepted q t k a o).or (lastAccepted q t k a ops) := by
  simp [lastAccepted, List.foldl_append]

/-! ## The staged ads -/

theorem setAttribute_staged (t : Txn E) (k : JobKey) (name value : String) (k' : JobKey) (a : Attr) :
    (setAttribute q t k name value).2.staged k' a =
      (accepted q t k' a (.setAttribute k name value)).getD (t.staged k' a) := by
  unfold setAttribute accepted
  by_cases hv : value = ""
  · simp [hv]
  simp only [hv, if_false, ne_eq, not_false_eq_true, true_and]
  cases ha : authorize q t k name with
  | deny | ignore => simp
  | allow =>
    have hset : ∀ e : E, (t.stage k ((t.staged k).insertExpr (canon E name) e)).staged k' a =
        if k = k' ∧ canon E name = a then some e else t.staged k' a := by
      intro e
      rw [stage_staged]
      by_cases hk : k' = k
      · subst hk
        simp [Ad.insertExpr_apply, eq_comm]
      · simp [hk, Ne.symm hk]
    simp only [and_true]
    cases hp : (parseExpr value : Except String E) with
    | ok e =>
      have h := hset e
      simp only [acceptedExpr, hp, Option.map_some]
      by_cases hc : k = k' ∧ canon E name = a
      · rw [if_pos hc] at h ⊢; exact h
      · rw [if_neg hc] at h ⊢; exact h
    | error =>
      simp only [acceptedExpr, hp]
      by_cases hs : settable E name value = true
      · have h := hset (lit (.str value))
        simp only [hs, if_true, Option.map_some]
        by_cases hc : k = k' ∧ canon E name = a
        · rw [if_pos hc] at h ⊢; exact h
        · rw [if_neg hc] at h ⊢; exact h
      · simp only [hs, Bool.false_eq_true, if_false, Option.map_none, ite_self, Option.getD_none]
        rw [stage_staged]
        split_ifs with hk
        · rw [hk]
        · rfl

theorem deleteAttribute_staged (t : Txn E) (k : JobKey) (name : String) (k' : JobKey) (a : Attr) :
    (deleteAttribute q t k name).2.staged k' a =
      (accepted q t k' a (.deleteAttribute k name)).getD (t.staged k' a) := by
  unfold deleteAttribute accepted
  cases ha : authorize q t k name with
  | deny | ignore => simp [ha]
  | allow =>
    simp only [ha, and_true]
    by_cases hk : k = k'
    · subst hk
      cases hp : t.pending.lookup k with
      | none => by_cases hn : canon E name = a <;> simp [staged, hp, hn]
      | some =>
        by_cases hn : canon E name = a
        · simp [staged, stage_lookup, Ad.delete_apply, hn]
        · simp [staged, stage_lookup, Ad.delete_apply, hn, Ne.symm hn, hp]
    · have hk' : ¬ k' = k := fun h => hk h.symm
      cases hp : t.pending.lookup k with
      | none => simp [hk, staged]
      | some => simp [hk, hk', staged, stage_lookup]

/-! ## The marks and the staged keys -/

variable {o : Op}

theorem step_marks {q : Queue E} {t : Txn E} (ho : o.isEdit = true) (k : JobKey) (name : String) :
    (k, name) ∈ (step (q, t) o).2.delAttrs ↔ (marks q t k name o).getD (decide ((k, name) ∈ t.delAttrs)) = true := by
  have hne : ∀ {k' name'}, ¬ (k' = k ∧ name' = name) → (k, name) ≠ (k', name') := fun hk he =>
    hk ⟨(congrArg Prod.fst he).symm, (congrArg Prod.snd he).symm⟩
  cases o with
  | setAttribute k' name' value =>
    simp only [step, setAttribute, marks]
    by_cases hv : value = ""
    · simp [hv]
    cases ha : authorize q t k' name' with
    | deny | ignore => simp [hv]
    | allow =>
      cases hp : (parseExpr value : Except String E) with
      | error =>
        by_cases hs : settable E name' value = true <;> simp [hv, hs, Except.isOk, Except.toBool, stage]
      | ok =>
        by_cases hk : k' = k ∧ name' = name
        · obtain ⟨rfl, rfl⟩ := hk
          simp [hv, Except.isOk, Except.toBool]
        · simp [hv, ← and_assoc, hk, hne hk, stage]
  | deleteAttribute k' name' =>
    simp only [step, deleteAttribute, marks]
    cases ha : authorize q t k' name' with
    | deny | ignore => simp
    | allow =>
      by_cases hk : k' = k ∧ name' = name
      · obtain ⟨rfl, rfl⟩ := hk
        simp
      · cases t.pending.lookup k' <;> simp [hk, hne hk, stage]
  | _ => simp [Op.isEdit] at ho

theorem step_pending {q : Queue E} {t : Txn E} (ho : o.isEdit = true) (k : JobKey) :
    k ∈ (step (q, t) o).2.pending ↔ k ∈ t.pending ∨ stages q t (· = k) o = true := by
  have hstage : ∀ k' (ad : Ad E), k ∈ (t.stage k' ad).pending ↔ k ∈ t.pending ∨ k' = k := fun k' ad =>
    (AList.mem_insert _).trans (or_comm.trans (or_congr_right eq_comm))
  cases o with
  | setAttribute k' name value =>
    simp only [step, setAttribute, stages]
    by_cases hv : value = ""
    · simp [hv]
    cases ha : authorize q t k' name with
    | deny | ignore => simp [hv]
    | allow =>
      cases hp : (parseExpr value : Except String E) with
      | error => by_cases hs : settable E name value = true <;> simp [hv, hs, hstage]
      | ok => simpa [hv] using hstage k' _
  | deleteAttribute k' name =>
    simp only [step, deleteAttribute, stages, Bool.false_eq_true, or_false]
    cases ha : authorize q t k' name with
    | deny | ignore => rfl
    | allow =>
      cases hp : t.pending.lookup k' with
      | none => rfl
      | some ad =>
        refine (hstage k' _).trans (or_iff_left_of_imp ?_)
        rintro rfl
        exact (KeyMap.mem_iff_lookup _ _).2 ⟨ad, hp⟩
  | _ => simp [Op.isEdit] at ho

/-- the part of a transaction that authorization reads -/
structure SameAuth (t t' : Txn E) : Prop where
  authUser : t'.authUser = t.authUser
  isSuper : t'.isSuper = t.isSuper
  allowProtected : t'.allowProtected = t.allowProtected

variable {t t' : Txn E}

theorem SameAuth.authorize (h : SameAuth t t') (q : Queue E) (k : JobKey) (name : String) :
    authorize q t' k name = Txn.authorize q t k name := by
  obtain ⟨hu, hs, hp⟩ := h
  cases t
  cases t'
  simp only at hu hs hp
  subst hu hs hp
  rfl

theorem SameAuth.accepted (h : SameAuth t t') (q : Queue E) (k : JobKey) (a : Attr) (o : Op) :
    accepted q t' k a o = Txn.accepted q t k a o := by
  cases o <;> simp only [Txn.accepted, h.authorize]

theorem SameAuth.marks (h : SameAuth t t') (q : Queue E) (k : JobKey) (name : String) (o : Op) :
    marks q t' k name o = Txn.marks q t k name o := by
  cases o <;> simp only [Txn.marks, h.authorize]

theorem SameAuth.stages (h : SameAuth t t') (q : Queue E) (p : JobKey → Bool) (o : Op) :
    stages q t' p o = Txn.stages q t p o := by
  cases o <;> simp only [Txn.stages, h.authorize]

theorem Effect.edit {q : Queue E} (h : Effect q t o t') (ho : o.isEdit = true) :
    SameAuth t t' ∧ t'.destroyed = t.destroyed := by
  cases h
  all_goals first
    | exact ⟨⟨rfl, rfl, rfl⟩, rfl⟩
    | simp [Op.isEdit] at ho

/-- what a transaction made of edits only has done so far -/
structure Edited (q : Queue E) (t0 : Txn E) (done : List Op) (s : Queue E × Txn E) : Prop where
  queue : s.1 = q
  auth : SameAuth t0 s.2
  destroyed : s.2.destroyed = []
  staged : ∀ k a, s.2.staged k a = (lastAccepted q t0 k a done).join
  marks : ∀ k name, (k, name) ∈ s.2.delAttrs ↔ hidden q t0 k name done = true
  pending : ∀ k, k ∈ s.2.pending ↔ done.any (stages q t0 (· = k)) = true

theorem step_edited {q : Queue E} {t0 : Txn E} {done : List Op} {s : Queue E × Txn E} (h : Edited q t0 done s)
    (ho : o.isEdit = true) : Edited q t0 (done ++ [o]) (step s o) := by
  obtain ⟨hauth, hdest⟩ := (step_effect s o).edit ho
  have hst : ∀ k a, (step s o).2.staged k a = (accepted s.1 s.2 k a o).getD (s.2.staged k a) := by
    intro k a
    cases o with
    | setAttribute k' name value => exact setAttribute_staged s.1 s.2 k' name value k a
    | deleteAttribute k' name => exact deleteAttribute_staged s.1 s.2 k' name k a
    | _ => simp [Op.isEdit] at ho
  refine ⟨?_, ⟨hauth.authUser.trans h.auth.authUser, hauth.isSuper.trans h.auth.isSuper,
    hauth.allowProtected.trans h.auth.allowProtected⟩, hdest.trans h.destroyed, fun k a => ?_, fun k name => ?_,
    fun k => ?_⟩
  · cases o with
    | setAttribute | deleteAttribute => exact h.queue
    | _ => simp [Op.isEdit] at ho
  · rw [hst, h.queue, h.auth.accepted, h.staged, lastAccepted_snoc]
    cases accepted q t0 k a o <;> simp
  · refine (step_marks ho k name).trans ?_
    have hmark : decide ((k, name) ∈ s.2.delAttrs) = hidden q t0 k name done := by
      rw [Bool.eq_iff_iff, decide_eq_true_iff]
      exact h.marks k name
    rw [h.queue, h.auth.marks, hmark]
    simp [hidden]
  · refine (step_pending ho k).trans ?_
    rw [h.queue, h.auth.stages, h.pending]
    simp

/-- **The staged ads hold what the last accepted requests left there.** -/
theorem session_edited (user : String) {ops : List Op} (hops : ∀ o ∈ ops, o.isEdit = true) :
    Edited q (begin q user) ops (session q user ops) := by
  refine Runs.foldl_history (P := fun done (s : Queue E × Txn E) => (∀ o ∈ done, o.isEdit = true) →
    Edited q (begin q user) done s)
    (fun _ => ⟨rfl, ⟨rfl, rfl, rfl⟩, rfl, fun _ _ => rfl, fun _ _ => by simp [begin, hidden],
      fun _ => by simp [begin]⟩) ?_ ops hops
  intro done s o ih hall
  exact step_edited (ih fun o' ho' => hall o' (List.mem_append_left _ ho')) (hall o (by simp))

/-! ## The read before and the ad after -/

/-- the attributes `materialize` forces or defaults -/
def materializedAttrs : List Attr :=
  [.owner, .user, .clusterId, .procId, .globalJobId, .myType, .jobStatus, .qDate, .jobUniverse]

theorem materialize_plain (t : Txn E) (ad : Ad E) (k : JobKey) (now : ℤ) {a : Attr}
    (ha : a ∉ materializedAttrs) : materialize q t ad k now a = ad a := by
  rw [materialize_apply]
  cases a <;> simp_all [materializedAttrs, forced, defaulted]

variable {q} {t0 : Txn E} {ops : List Op} {s : Queue E × Txn E}

theorem Edited.touches (h : Edited q t0 ops s) (c : ℤ) : s.2.touches c = touched q t0 c ops := by
  rw [Bool.eq_iff_iff, touches_iff, touched, List.any_eq_true]
  simp only [h.pending, List.any_eq_true]
  constructor
  · rintro ⟨k, ⟨o, ho, hset⟩, rfl⟩
    refine ⟨o, ho, ?_⟩
    cases o with
    | setAttribute =>
      simp only [stages, Bool.and_eq_true, decide_eq_true_eq] at hset ⊢
      exact ⟨congrArg JobKey.cluster hset.1, hset.2⟩
    | _ => cases hset
  · rintro ⟨o, ho, hset⟩
    cases o with
    | setAttribute k =>
      simp only [stages, Bool.and_eq_true, decide_eq_true_eq] at hset
      exact ⟨k, ⟨_, ho, by simpa [stages] using hset.2⟩, hset.1⟩
    | _ => cases hset

theorem Edited.rewritten (h : Edited q t0 ops s) (k : JobKey) :
    (stagedAtCommit s.2 k).isSome = rewritten q t0 k ops := by
  have hkeys := h.pending k
  rw [KeyMap.mem_iff_lookup, ← Option.isSome_iff_exists, ← Bool.eq_iff_iff] at hkeys
  unfold stagedAtCommit Txn.rewritten
  rw [Option.isSome_or, hkeys, h.touches]
  split_ifs with hc <;> simp_all

/-- a read of `name` gives `r`, what the last accepted request left: after a set, no deletion in this spelling is left
unanswered; after a deletion, there is one, or nothing is inherited or committed either -/
def ReadFinds (q : Queue E) (t : Txn E) (ops : List Op) (k : JobKey) (name : String) : Option E → Prop
  | some _ => hidden q t k name ops = false
  | none => hidden q t k name ops = true ∨
      (0 ≤ k.proc → (lastAccepted q t (clusterKey k.cluster) (canon E name) ops).join = none) ∧
        q.flat k (canon E name) = none

/-- a commit leaves the flattened ad with `r` at `a`: always after a set; after a deletion, when the ad is rewritten or
lacks the attribute itself, and what it then inherits lacks it too -/
def CommitKeeps (q : Queue E) (t : Txn E) (ops : List Op) (k : JobKey) (a : Attr) : Option E → Prop
  | some _ => True
  | none => (rewritten q t k ops = true ∨ q.own k a = none) ∧
      (0 ≤ k.proc → rewritten q t k ops = true ∨ (q.coll.lookup k).isSome = true →
        (if touched q t k.cluster ops then (lastAccepted q t (clusterKey k.cluster) a ops).join
          else q.own (clusterKey k.cluster) a) = none)

theorem getAttribute_iff (h : Edited q t0 ops s) {k : JobKey} {name : String} {r : Option E}
    (hs : s.2.staged k (canon E name) = r) :
    getAttribute q s.2 k name = r.map render ↔ ReadFinds q t0 ops k name r := by
  unfold getAttribute getAttributeExpr
  simp only [pending_bind, hs, h.staged (clusterKey k.cluster)]
  cases hm : hidden q t0 k name ops with
  | true => cases r <;> simp [ReadFinds, h.marks, hm]
  | false =>
    cases r with
    | some => simp [ReadFinds, h.marks, hm]
    | none => by_cases hp : 0 ≤ k.proc <;> simp [ReadFinds, h.marks, hm, hp, Queue.flat]

variable (q)

theorem committed_own_plain {t : Txn E} (now : ℤ) (hd : t.destroyed = []) (c : ℤ) {a : Attr}
    (ha : a ∉ materializedAttrs) :
    (committed q t now).own (clusterKey c) a =
      if t.touches c then t.staged (clusterKey c) a else q.own (clusterKey c) a := by
  have hnd : clusterKey c ∉ t.destroyed := by simp [hd]
  unfold Queue.own
  split_ifs with ht
  · rw [committed_lookup_kept q now hnd, stagedAtCommit_clusterKey ht]
    simp only [Option.map_some, Option.some_or, Option.bind_some]
    exact materialize_plain q t _ _ now ha
  · rw [committed_lookup_untouched q now (by simpa using ht) hnd]

theorem committed_flat_iff {q : Queue E} {t : Txn E} (h : Edited q t0 ops (q, t)) {now : ℤ} {k : JobKey} {a : Attr}
    {r : Option E} (ha : a ∉ materializedAttrs) (hs : t.staged k a = r) :
    (committed q t now).flat k a = r ↔ CommitKeeps q t0 ops k a r := by
  have hd := h.destroyed
  have hnd : k ∉ t.destroyed := by simp [show t.destroyed = [] from hd]
  have hrew := h.rewritten k
  have hcluster : (if t.touches k.cluster then t.staged (clusterKey k.cluster) a else q.own (clusterKey k.cluster) a) =
      if touched q t0 k.cluster ops then (lastAccepted q t0 (clusterKey k.cluster) a ops).join
      else q.own (clusterKey k.cluster) a := by
    rw [← h.touches, ← h.staged]
  cases hst : stagedAtCommit t k with
  | some =>
    obtain rfl := stagedAtCommit_eq hst
    have hl : (committed q t now).coll.lookup k = some (materialize q t (t.staged k) k now) := by
      rw [committed_lookup_kept q now hnd, hst]
      rfl
    rw [Queue.flat_eq _ hl, materialize_plain q t _ _ now ha, hs]
    cases r with
    | some => simp [CommitKeeps]
    | none =>
      rw [committed_own_plain q now hd k.cluster ha, hcluster]
      rw [hst] at hrew
      rcases lt_or_ge k.proc 0 with hp | hp
      · simp [CommitKeeps, ← hrew, hp, not_le.2 hp]
      · simp [CommitKeeps, ← hrew, hp, not_lt.2 hp]
  | none =>
    have hnone : t.staged k a = none := by
      unfold stagedAtCommit at hst
      rw [Option.or_eq_none_iff] at hst
      rw [staged_of_none hst.1]
      rfl
    obtain rfl : r = none := hs.symm.trans hnone
    have hl : (committed q t now).coll.lookup k = q.coll.lookup k := by
      rw [committed_lookup_kept q now hnd, hst]
      rfl
    rw [hst] at hrew
    cases ho : q.coll.lookup k with
    | none => simp [CommitKeeps, ← hrew, ho, Queue.flat, Store.get, hl, Queue.own]
    | some own =>
      rw [ho] at hl
      rw [Queue.flat_eq _ hl, committed_own_plain q now hd k.cluster ha, hcluster]
      have hoa : q.own k a = own a := by simp [Queue.own, ho]
      rcases lt_or_ge k.proc 0 with hp | hp
      · simp [CommitKeeps, ← hrew, hp, not_le.2 hp, hoa]
      · simp [CommitKeeps, ← hrew, ho, hp, not_lt.2 hp, hoa]

/-- **Reads predict the commit.** For every sequence of sets and deletes in one transaction, every key and every
spelling of a name the transaction edited: the read just before a commit that goes through, and the flattened ad after
it, give what the last accepted request left exactly when the requests are such as `ReadFinds` and `CommitKeeps` say. -/
theorem reads_predict_commit_iff (q : Queue E) (user : String) (ops : List Op) (hops : ∀ o ∈ ops, o.isEdit = true)
    (now : ℤ) (updErr : Option String) (hc : (commit q (session q user ops).2 now updErr).1 = none) (k : JobKey)
    (name : String) (r : Option E) (hr : lastAccepted q (begin q user) k (canon E name) ops = some r) :
    (getAttribute q (session q user ops).2 k name = r.map render ∧
        (canon E name ∉ materializedAttrs →
          (commit q (session q user ops).2 now updErr).2.1.flat k (canon E name) = r)) ↔
      (ReadFinds q (begin q user) ops k name r ∧
        (canon E name ∉ materializedAttrs → CommitKeeps q (begin q user) ops k (canon E name) r)) := by
  have hed := session_edited q user hops
  have hs : (session q user ops).2.staged k (canon E name) = r := by
    rw [hed.staged, hr]
    rfl
  rw [commit_accepted hc, getAttribute_iff hed hs]
  refine and_congr_right fun _ => forall_congr' fun ha => ?_
  have hed' : Edited q (begin q user) ops (q, (session q user ops).2) :=
    ⟨rfl, hed.auth, hed.destroyed, hed.staged, hed.marks, hed.pending⟩
  exact committed_flat_iff hed' ha hs

/-- alice sets two attributes of their job and deletes one of them again -/
def setSetDelete : List Op :=
  [.setAttribute ⟨1, 0⟩ "Foo" "1", .setAttribute ⟨1, 0⟩ "Bar" "2", .deleteAttribute ⟨1, 0⟩ "Foo"]

/-- the deletion is read and committed -/
theorem reads_predict_commit_delete :
    getAttribute aliceQueue (session aliceQueue "alice@pool" setSetDelete).2 ⟨1, 0⟩ "Foo" = none ∧
      (commit aliceQueue (session aliceQueue "alice@pool" setSetDelete).2 200 none).2.1.flat ⟨1, 0⟩
        (canon Value "Foo") = none := by
  have h := (reads_predict_commit_iff aliceQueue "alice@pool" setSetDelete (by decide) 200 none (by decide +kernel)
    ⟨1, 0⟩ "Foo" none (by decide +kernel)).2 ⟨by unfold ReadFinds; decide +kernel, fun _ => by
      unfold CommitKeeps; decide +kernel⟩
  exact ⟨h.1, h.2 (by decide +kernel)⟩

/-- a deletion, then a set whose value does not parse, then a deletion in another spelling of a committed attribute -/
def mixedEdits : List Op :=
  [.deleteAttribute ⟨1, 0⟩ "Foo", .setAttribute ⟨1, 0⟩ "Foo" "two words", .deleteAttribute (clusterKey 1) "CMD"]

/-- **A read does not predict the commit.** The unparsable value was accepted and is committed as a string, but the
deletion mark of an earlier request hides it from the read; the attribute deleted as `CMD` is still read as `Cmd`. -/
theorem unparsed_set_is_not_read :
    Sys.Reachable aliceQueue ∧ mixedEdits.all Op.isEdit = true ∧
      (commit aliceQueue (session aliceQueue "alice@pool" mixedEdits).2 200 none).1 = none ∧
      lastAccepted aliceQueue (begin aliceQueue "alice@pool") ⟨1, 0⟩ (.other "foo") mixedEdits =
        some (some (.str "two words")) ∧
      getAttribute aliceQueue (session aliceQueue "alice@pool" mixedEdits).2 ⟨1, 0⟩ "Foo" = none ∧
      (commit aliceQueue (session aliceQueue "alice@pool" mixedEdits).2 200 none).2.1.flat ⟨1, 0⟩ (.other "foo") =
        some (.str "two words") ∧
      lastAccepted aliceQueue (begin aliceQueue "alice@pool") (clusterKey 1) .cmd mixedEdits = some none ∧
      getAttribute aliceQueue (session aliceQueue "alice@pool" mixedEdits).2 (clusterKey 1) "Cmd" =
        some "\"/bin/true\"" :=
  ⟨aliceQueue_reachable, by decide +kernel⟩

end Txn

end AccessPoint
