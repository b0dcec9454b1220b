/-
What the requests of one transaction can do (internal/queue/txn.go, authz.go).

One inversion lemma says everything a request can do to the transaction; the invariants of whole transactions follow
from it by induction on the requests.

- `step_base`, `run_base`: until the commit only the cluster-id counter of the queue moves.
- `step_effect`: the ways a request can change the transaction, with the checks it passed.
- `run_staged_named`: a staged attribute was named by an accepted request on that key.
- `run_staged_immutable`: no immutable attribute is ever staged on a committed ad.
- `Effect.destroyed`: a key is marked destroyed only where the ownership rule allowed it.
-/
import AccessPoint.Queue.Commit
import AccessPoint.Core.Runs

namespace AccessPoint

open ClassAdLib AList

variable {E : Type}

/-- two queues that differ at most in the cluster-id counter -/
structure Queue.SameBase (q q' : Queue E) : Prop where
  name : q'.name = q.name
  domain : q'.domain = q.domain
  supers : q'.supers = q.supers
  authz : q'.authz = q.authz
  coll : q'.coll = q.coll
  factories : q'.factories = q.factories
  hist : q'.hist = q.hist

variable (q : Queue E)

theorem Queue.SameBase.refl : q.SameBase q := ⟨rfl, rfl, rfl, rfl, rfl, rfl, rfl⟩

theorem Queue.SameBase.trans {q q' q'' : Queue E} (h : q.SameBase q') (h' : q'.SameBase q'') : q.SameBase q'' :=
  ⟨h'.name.trans h.name, h'.domain.trans h.domain, h'.supers.trans h.supers, h'.authz.trans h.authz,
    h'.coll.trans h.coll, h'.factories.trans h.factories, h'.hist.trans h.hist⟩

namespace Txn

variable {k : JobKey}

theorem staged_of_none {t : Txn E} (h : t.pending.lookup k = none) : t.staged k = Ad.empty := by
  simp [staged, h]

theorem stage_lookup (t : Txn E) (k k' : JobKey) (ad : Ad E) :
    (t.stage k ad).pending.lookup k' = if k' = k then some ad else t.pending.lookup k' :=
  KeyMap.lookup_insert_ite _ _ _ _

variable [ClassAdLib E]

/-! ## The queue -/

theorem step_base (s : Queue E × Txn E) (o : Op) : s.1.SameBase (step s o).1 := by
  cases o with
  | newCluster putErr =>
    simp only [step, newCluster]
    split_ifs with ha
    · exact .refl _
    · cases putErr <;> exact ⟨rfl, rfl, rfl, rfl, rfl, rfl, rfl⟩
  | newProc | setEffectiveOwner => simp only [step]; split <;> exact .refl _
  | setAttribute | deleteAttribute | destroyProc | destroyCluster | addError =>
    exact .refl _
  | setAllowProtectedChanges => exact .refl _

/-- **Nothing reaches the store before the commit.** -/
theorem run_base (s : Queue E × Txn E) (ops : List Op) : s.1.SameBase (run s ops).1 :=
  Runs.foldl_inv (P := fun s' => s.1.SameBase s'.1) (fun s' o h => h.trans (step_base s' o)) (.refl _) ops

/-! ## What a request can do -/

/-- the expression a value stands for: parsed, or the text itself as a string when it does not parse; `none` when the
ad refuses that too -/
def acceptedExpr (name value : String) : Option E :=
  match (parseExpr value : Except String E) with
  | .ok e => some e
  | .error _ => if settable E name value then some (lit (.str value)) else none

/-- the transaction after one request: every case that changes it, with the checks that were passed -/
inductive Effect (q : Queue E) (t : Txn E) : Op → Txn E → Prop where
  | refused (o : Op) : Effect q t o t
  | newCluster (id : ℤ) (hid : id = q.nextID) :
      Effect q t (.newCluster none)
        { t with active := id, nextProc := t.nextProc.insert id 0
                 pending := t.pending.insert (clusterKey id) (t.staged (clusterKey id)) }
  | newProc (c p : ℤ) (hc : c = t.active) (hp : p = (t.nextProc.lookup c).getD 0) :
      Effect q t (.newProc c)
        { t with nextProc := t.nextProc.insert c (p + 1), newProcs := ⟨c, p⟩ :: t.newProcs
                 pending := t.pending.insert ⟨c, p⟩ (t.staged ⟨c, p⟩) }
  | set (k : JobKey) (name value : String) (e : E) (hv : value ≠ "") (ha : authorize q t k name = .allow)
      (he : acceptedExpr name value = some e) (d : List (JobKey × String)) :
      Effect q t (.setAttribute k name value)
        { t with pending := t.pending.insert k ((t.staged k).insertExpr (canon E name) e), delAttrs := d }
  | setFailed (k : JobKey) (name value : String) (ha : authorize q t k name = .allow)
      (he : (acceptedExpr name value : Option E) = none) :
      Effect q t (.setAttribute k name value) (t.stage k (t.staged k))
  | delete (k : JobKey) (name : String) (ha : authorize q t k name = .allow) (pending : KeyMap JobKey (Ad E))
      (hp : ∀ k', pending.lookup k' =
        if k' = k then (t.pending.lookup k).map (·.delete (canon E name)) else t.pending.lookup k') :
      Effect q t (.deleteAttribute k name) { t with pending := pending, delAttrs := (k, name) :: t.delAttrs }
  | destroyProc (k : JobKey) (hc : (committedOwner q k).bind (checkOwner q t k) = none) :
      Effect q t (.destroyProc k) { t with destroyed := k :: t.destroyed, pending := t.pending.erase k }
  | destroyCluster (c : ℤ) (hc : (committedOwner q (clusterKey c)).bind (checkOwner q t (clusterKey c)) = none)
      (hp : ∀ k ad, (k, ad) ∈ clusterProcs q c → checkOwner q t k (q.jobUser ad) = none) :
      Effect q t (.destroyCluster c)
        { t with destroyed := clusterKey c :: ((clusterProcs q c).map Prod.fst ++ t.destroyed)
                 pending := t.pending.erase (clusterKey c) }
  | setEffectiveOwner (o user : String) :
      Effect q t (.setEffectiveOwner o) { t with user := user, owner := shortName user }
  | setAllowProtectedChanges (v : Bool) : Effect q t (.setAllowProtectedChanges v) { t with allowProtected := v }
  | addError (msg : String) : Effect q t (.addError msg) (addError t msg)

theorem setAttribute_effect (t : Txn E) (k : JobKey) (name value : String) :
    Effect q t (.setAttribute k name value) (setAttribute q t k name value).2 := by
  unfold setAttribute
  by_cases hv : value = ""
  · rw [if_pos hv]
    exact .refused _
  · rw [if_neg hv]
    split
    · exact .refused _
    · exact .refused _
    · rename_i ha
      split
      · rename_i e he
        split_ifs with hs
        · exact .set k name value (lit (.str value)) hv ha (by simp [acceptedExpr, he, hs]) t.delAttrs
        · exact .setFailed k name value ha (by simp [acceptedExpr, he, hs])
      · rename_i e he
        exact .set k name value e hv ha (by simp [acceptedExpr, he]) _

theorem deleteAttribute_effect (t : Txn E) (k : JobKey) (name : String) :
    Effect q t (.deleteAttribute k name) (deleteAttribute q t k name).2 := by
  unfold deleteAttribute
  split
  · exact .refused _
  · exact .refused _
  · rename_i ha
    cases hk : t.pending.lookup k with
    | none =>
      refine .delete k name ha t.pending fun k' => ?_
      split_ifs with h
      · rw [h, hk]; rfl
      · rfl
    | some ad =>
      refine .delete k name ha (t.stage k (ad.delete (canon E name))).pending fun k' => ?_
      rw [stage_lookup, hk]
      rfl

theorem destroyProc_effect (t : Txn E) (k : JobKey) : Effect q t (.destroyProc k) (destroyProc q t k).2 := by
  unfold destroyProc
  split_ifs
  · exact .refused _
  · split
    · exact .refused _
    · rename_i hc
      exact .destroyProc k hc

theorem destroyCluster_effect (t : Txn E) (c : ℤ) : Effect q t (.destroyCluster c) (destroyCluster q t c).2 := by
  unfold destroyCluster
  split_ifs
  · exact .refused _
  · split
    · exact .refused _
    · rename_i hc
      split
      · exact .refused _
      · rename_i hp
        refine .destroyCluster c hc fun k ad hk => ?_
        exact List.findSome?_eq_none_iff.1 hp (k, ad) hk

/-- **Everything a request can do.** -/
theorem step_effect (s : Queue E × Txn E) (o : Op) : Effect s.1 s.2 o (step s o).2 := by
  cases o with
  | newCluster putErr =>
    simp only [step, newCluster]
    split_ifs
    · exact .refused _
    · cases putErr with
      | some => exact .refused _
      | none => exact .newCluster s.1.nextID rfl
  | newProc c =>
    simp only [step, newProc]
    split_ifs with ha hc
    · exact .refused _
    · exact .refused _
    · exact .newProc c _ (not_not.1 hc) rfl
  | setAttribute k name value => exact setAttribute_effect s.1 s.2 k name value
  | deleteAttribute k name => exact deleteAttribute_effect s.1 s.2 k name
  | destroyProc k => exact destroyProc_effect s.1 s.2 k
  | destroyCluster c => exact destroyCluster_effect s.1 s.2 c
  | setEffectiveOwner owner =>
    simp only [step, setEffectiveOwner]
    split_ifs
    all_goals first
      | exact .refused _
      | exact .setEffectiveOwner owner _
  | setAllowProtectedChanges v => exact .setAllowProtectedChanges v
  | addError msg => exact .addError msg

variable {t t' : Txn E} {o : Op}

/-- the authenticated identity and the super-user decision are fixed at `begin` -/
theorem Effect.identity {q : Queue E} (h : Effect q t o t') : t'.authUser = t.authUser ∧ t'.isSuper = t.isSuper := by
  cases h <;> exact ⟨rfl, rfl⟩

/-- the queue and the transaction after the requests `ops` of `user` on `q` -/
abbrev session (q : Queue E) (user : String) (ops : List Op) : Queue E × Txn E := run (q, begin q user) ops

/-! ## Staged attributes -/

/-- one attribute of one staged ad: kept, dropped, or set by this request after it was authorized -/
theorem Effect.staged_attr {q : Queue E} (h : Effect q t o t') (k : JobKey) (a : Attr) :
    t'.staged k a = t.staged k a ∨ t'.staged k a = none ∨
      ∃ name value e, o = .setAttribute k name value ∧ canon E name = a ∧ value ≠ "" ∧
        authorize q t k name = .allow ∧ t'.staged k a = some e ∧ acceptedExpr name value = some e := by
  cases h with
  | refused | setEffectiveOwner | setAllowProtectedChanges | addError => exact .inl rfl
  | newCluster id =>
    left
    by_cases hk : k = clusterKey id
    · subst hk; simp [staged, lookup_insert]
    · simp [staged, lookup_insert_ne hk]
  | newProc c p =>
    left
    by_cases hk : k = ⟨c, p⟩
    · subst hk; simp [staged, lookup_insert]
    · simp [staged, lookup_insert_ne hk]
  | set k' name value e hv ha he =>
    by_cases hk : k = k'
    · subst hk
      by_cases hn : a = canon E name
      · subst hn
        exact .inr (.inr ⟨name, value, e, rfl, rfl, hv, ha,
          by simp [staged, lookup_insert, Ad.insertExpr_apply], he⟩)
      · left
        simp [staged, lookup_insert, Ad.insertExpr_apply, hn]
    · left
      simp [staged, lookup_insert_ne hk]
  | setFailed =>
    left
    unfold staged
    rw [stage_lookup]
    split_ifs with hk
    · subst hk; rfl
    · rfl
  | delete k' name ha pending hp =>
    unfold staged
    simp only [hp]
    split_ifs with hk
    · subst hk
      cases t.pending.lookup k with
      | none => exact .inl rfl
      | some =>
        simp only [Option.map_some, Option.getD_some, Ad.delete_apply]
        split_ifs
        · exact .inr (.inl rfl)
        · exact .inl rfl
    · exact .inl rfl
  | destroyProc | destroyCluster =>
    simp only [staged, KeyMap.lookup_erase_ite]
    split_ifs
    · exact .inr (.inl rfl)
    · exact .inl rfl

theorem setAttribute_accepted {q : Queue E} {name value : String} {e : E} (hv : value ≠ "")
    (ha : authorize q t k name = .allow) (he : acceptedExpr name value = some e) :
    (setAttribute q t k name value).1 = none := by
  simp only [setAttribute, if_neg hv, ha]
  cases hp : (parseExpr value : Except String E) with
  | ok => rfl
  | error =>
    simp only [acceptedExpr, hp] at he
    split_ifs at he with hs
    simp only [hs, if_true]

/-- the request is a `SetAttribute` or `DeleteAttribute` on `k` of a name that denotes `a`, and it is accepted -/
def Stages (s : Queue E × Txn E) (o : Op) (k : JobKey) (a : Attr) : Prop :=
  ∃ name, canon E name = a ∧ authorize s.1 s.2 k name = .allow ∧
    ((∃ value, o = .setAttribute k name value ∧ (setAttribute s.1 s.2 k name value).1 = none) ∨
      o = .deleteAttribute k name)

/-- an accepted request of the session names `a` of `k` -/
def Named (q : Queue E) (user : String) (ops : List Op) (k : JobKey) (a : Attr) : Prop :=
  ∃ before o after, ops = before ++ o :: after ∧ Stages (session q user before) o k a

/-- **A staged attribute was named by an accepted request.** -/
theorem run_staged_named (user : String) (ops : List Op) {a : Attr}
    (hn : ¬ Named q user ops k a) : (session q user ops).2.staged k a = none := by
  induction ops using List.reverseRecOn with
  | nil => rfl
  | append_singleton ops o ih =>
    have hops : ¬ Named q user ops k a := by
      rintro ⟨before, o', after, rfl, h⟩
      exact hn ⟨before, o', after ++ [o], by simp, h⟩
    have hlast : session q user (ops ++ [o]) = step (session q user ops) o := List.foldl_concat ..
    rw [hlast]
    rcases (step_effect (session q user ops) o).staged_attr k a with
      h | h | ⟨name, value, e, rfl, hname, hv, hauth, -, he⟩
    · rw [h]
      exact ih hops
    · exact h
    · exact absurd ⟨ops, _, [], rfl, name, hname, hauth, .inl ⟨value, rfl, setAttribute_accepted hv hauth he⟩⟩ hn

theorem committedOwner_eq_none {q : Queue E} : committedOwner q k = none ↔ q.coll.lookup k = none := by
  rw [← Store.get_eq_none]
  unfold committedOwner
  cases q.coll.get k with
  | none => simp
  | some =>
    simp only [reduceCtorEq, iff_false]
    split_ifs
    · simp
    · split <;> simp
    · simp

/-- an edit of a committed ad that is allowed passed the ownership rule and names no immutable attribute -/
theorem authorize_allow_committed {q : Queue E} {t : Txn E} {name : String}
    (h : authorize q t k name = .allow) (hk : q.coll.lookup k ≠ none) :
    (committedOwner q k).bind (checkOwner q t k) = none ∧ canon E name ∉ q.authz.immutable := by
  obtain ⟨owner, ho⟩ := Option.ne_none_iff_exists'.1 (mt committedOwner_eq_none.1 hk)
  simp only [authorize, ho] at h
  cases hc : checkOwner q t k owner with
  | some =>
    simp only [hc] at h
    split_ifs at h
  | none =>
    refine ⟨by simp [ho, hc], fun hm => ?_⟩
    simp only [hc, hm, if_true] at h
    split_ifs at h

theorem authorize_congr {q q' : Queue E} (h : q.SameBase q') (t : Txn E) (k : JobKey) (name : String) :
    authorize q' t k name = authorize q t k name := by
  have hu : q'.jobUser = q.jobUser := by
    funext ad
    unfold Queue.jobUser Queue.jobUser.ownerUser
    rw [h.domain]
  have hc : ∀ k owner, checkOwner q' t k owner = checkOwner q t k owner := by
    intro k owner
    unfold checkOwner
    rw [h.domain, h.authz]
  simp only [authorize, committedOwner, hu, hc, h.authz, h.coll]

/-- **No immutable attribute is staged on a committed ad.** -/
theorem run_staged_immutable (user : String) (ops : List Op) {a : Attr}
    (hk : q.coll.lookup k ≠ none) (ha : a ∈ q.authz.immutable) :
    (session q user ops).2.staged k a = none := by
  have key : ∀ s : Queue E × Txn E, q.SameBase s.1 ∧ s.2.staged k a = none → ∀ o,
      q.SameBase (step s o).1 ∧ (step s o).2.staged k a = none := by
    rintro s ⟨hb, hs⟩ o
    refine ⟨hb.trans (step_base s o), ?_⟩
    rcases (step_effect s o).staged_attr k a with h | h | ⟨name, value, e, -, hname, -, hauth, -⟩
    · rw [h]; exact hs
    · exact h
    · rw [authorize_congr hb] at hauth
      exact absurd (hname ▸ ha) (authorize_allow_committed hauth hk).2
  exact (Runs.foldl_inv (P := fun s : Queue E × Txn E => q.SameBase s.1 ∧ s.2.staged k a = none)
    (fun s o h => key s h o) ⟨.refl q, rfl⟩ ops).2

/-! ## Staged keys -/

/-- a staged key was staged before, or names the new cluster, the next proc of the active cluster, or the ad a
`SetAttribute` asked for -/
theorem Effect.staged_key {q : Queue E} (h : Effect q t o t') (hk : k ∈ t'.pending) :
    k ∈ t.pending ∨ (o = .newCluster none ∧ k = clusterKey q.nextID) ∨
      (∃ p, o = .newProc t.active ∧ k = ⟨t.active, p⟩) ∨ ∃ name value, o = .setAttribute k name value := by
  cases h with
  | refused | setEffectiveOwner | setAllowProtectedChanges | addError => exact .inl hk
  | newCluster id hid =>
    rcases (mem_insert _).1 hk with rfl | hk
    · exact .inr (.inl ⟨rfl, by rw [hid]⟩)
    · exact .inl hk
  | newProc c p hc =>
    subst hc
    rcases (mem_insert _).1 hk with rfl | hk
    · exact .inr (.inr (.inl ⟨p, rfl, rfl⟩))
    · exact .inl hk
  | set k' name value | setFailed k' name value =>
    rcases (mem_insert _).1 hk with rfl | hk
    · exact .inr (.inr (.inr ⟨name, value, rfl⟩))
    · exact .inl hk
  | delete k' name ha pending hp =>
    left
    obtain ⟨ad, hl⟩ := (KeyMap.mem_iff_lookup _ _).1 hk
    rw [hp] at hl
    split_ifs at hl with he
    · subst he
      obtain ⟨ad', hl', -⟩ := Option.map_eq_some_iff.1 hl
      exact (KeyMap.mem_iff_lookup _ _).2 ⟨ad', hl'⟩
    · exact (KeyMap.mem_iff_lookup _ _).2 ⟨ad, hl⟩
  | destroyProc | destroyCluster => exact .inl (mem_erase.1 hk).2

/-- the active cluster is the one last allocated in this transaction -/
theorem Effect.active {q : Queue E} (h : Effect q t o t') :
    t'.active = t.active ∨ (o = .newCluster none ∧ t'.active = q.nextID) := by
  cases h with
  | newCluster id hid => exact .inr ⟨rfl, hid⟩
  | _ => exact .inl rfl

/-! ## Destroyed keys -/

/-- a key marked destroyed passed the ownership rule: its own, or as a proc a scan of its cluster found -/
theorem Effect.destroyed {q : Queue E} (h : Effect q t o t') (hk : k ∈ t'.destroyed) :
    k ∈ t.destroyed ∨ (committedOwner q k).bind (checkOwner q t k) = none ∨
      ∃ c ad, (k, ad) ∈ clusterProcs q c ∧ checkOwner q t k (q.jobUser ad) = none := by
  cases h with
  | destroyProc k' hc =>
    rcases List.mem_cons.1 hk with rfl | hk
    · exact .inr (.inl hc)
    · exact .inl hk
  | destroyCluster c hc hp =>
    rcases List.mem_cons.1 hk with rfl | hk
    · exact .inr (.inl hc)
    · rcases List.mem_append.1 hk with hk | hk
      · obtain ⟨⟨k', ad⟩, hm, rfl⟩ := List.mem_map.1 hk
        exact .inr (.inr ⟨c, ad, hm, hp k' ad hm⟩)
      · exact .inl hk
  | refused | newCluster | newProc | set | setFailed | delete | setEffectiveOwner | setAllowProtectedChanges =>
    exact .inl hk
  | addError => exact .inl hk

end Txn

end AccessPoint
