/-
Ads under their ids.

Every ad of the store carries the ids of its key. The core relies on this when it recovers the jobs of an earlier
incarnation: it starts a run for each ad it finds Running, under the ids the ad carries. `orderlyProtocol` says what the
goroutines do to keep it so: they write an ad under its ids only, as long as they read such ads, and report no end of a
run but by the run itself.

- `Ad.SameIds`: every rewrite of a job keeps its ids.
- `handle_orderly`, `sweepExpired_orderly`: every handler, and the runs it starts: of distinct jobs, none of which has
  an entry.
- `applyAction_orderly`: the actions.
-/
import AccessPoint.Queue.System
import AccessPoint.Sched.Rewrites

namespace AccessPoint

open ClassAdLib Prog

section

variable {E : Type} [ClassAdLib E]

/-! ## Ads under their ids -/

/-- the ids an ad carries -/
def Ad.ids (ad : Ad E) : JobKey := ⟨ad.int0 .clusterId, ad.int0 .procId⟩

/-- every stored ad carries the ids of its key -/
def Store.Keyed (s : Store E) : Prop := ∀ k ad, s.lookup k = some ad → Sys.KeyedAt k ad

theorem Sys.KeyedAt.ids {k : JobKey} {ad : Ad E} (h : Sys.KeyedAt k ad) (hk : 0 ≤ k.proc) : ad.ids = k := by
  obtain ⟨hc, hp⟩ := h hk
  simp [Ad.ids, Ad.int0, Ad.evaluateAttrInt_lit hc, Ad.evaluateAttrInt_lit hp]

variable {s : Store E}

theorem Store.Keyed.get (h : s.Keyed) {k : JobKey} {ad : Ad E} (hg : s.get k = some ad) : Sys.KeyedAt k ad := by
  obtain ⟨own, hl, rfl⟩ := Store.get_eq_some.1 hg
  exact (h k own hl).chainTo _

/-- a scan finds no ids twice -/
theorem Store.Keyed.scan (h : s.Keyed) : (s.scan.map Ad.ids).Nodup := by
  have hsub : ∀ l : List (Sigma fun _ : JobKey => Ad E), (∀ e ∈ l, Sys.KeyedAt e.1 e.2) →
      ((l.filterMap fun e => if isStructural e.1 then none else some (e.2.chainTo (s.parentAd e.1))).map Ad.ids).Sublist
        (l.map Sigma.fst) := by
    intro l
    induction l with
    | nil => exact fun _ => List.Sublist.refl _
    | cons e l ih =>
      intro hl
      have hrest := ih fun e' he' => hl e' (List.mem_cons_of_mem e he')
      by_cases hs : isStructural e.1 = true
      · simpa [List.filterMap_cons, hs] using hrest.cons e.1
      · have hk : 0 ≤ e.1.proc := by simpa [isStructural] using hs
        have hids := ((hl e List.mem_cons_self).chainTo (s.parentAd e.1)).ids hk
        simpa [List.filterMap_cons, hs, hids] using hrest
  refine (hsub s.entries fun e he => ?_).nodup s.nodupKeys
  exact h e.1 e.2 (AList.mem_lookup_iff.2 he)

/-! ### The rewrites keep the ids -/

/-- the two ads carry the same ids -/
def Ad.SameIds (ad ad' : Ad E) : Prop := ad' .clusterId = ad .clusterId ∧ ad' .procId = ad .procId

namespace Ad.SameIds

variable {ad ad' : Ad E}

theorem keyed (h : ad.SameIds ad') {k : JobKey} (hk : Sys.KeyedAt k ad) : Sys.KeyedAt k ad' := by
  intro hp
  rw [h.1, h.2]
  exact hk hp

omit [ClassAdLib E] in
theorem of_butFor {S : List Attr} (h : ad.ButFor S ad') (hc : Attr.clusterId ∉ S) (hp : Attr.procId ∉ S) :
    ad.SameIds ad' :=
  ⟨h _ hc, h _ hp⟩

end Ad.SameIds

theorem requeuedAd_ids (now : ℤ) (ad : Ad E) : ad.SameIds (requeuedAd now ad) :=
  .of_butFor (requeuedAd_butFor now ad) (by decide) (by decide)

variable (cfg : SchedConfig E)

theorem startedAd_ids (slotName claimID : String) (now : ℤ) (ad : Ad E) :
    ad.SameIds (startedAd cfg slotName claimID now ad) :=
  .of_butFor (startedAd_butFor cfg slotName claimID now ad) (by decide) (by decide)

theorem exitedAd_ids (res : RunResult) (now : ℤ) (ad : Ad E) : ad.SameIds (exitedAd res now ad) :=
  .of_butFor (exitedAd_butFor res now ad) (by decide) (by decide)

theorem heldOnExitAd_ids (reason : String) (code sub now : ℤ) (ad : Ad E) :
    ad.SameIds (heldOnExitAd reason code sub now ad) :=
  .of_butFor (heldOnExitAd_butFor reason code sub now ad) (by decide) (by decide)

theorem failedAd_ids (why : String) (count : Bool) (now : ℤ) (ad : Ad E) : ad.SameIds (failedAd cfg why count now ad) :=
  .of_butFor (failedAd_butFor cfg why count now ad) (by decide) (by decide)

theorem holdAd_ids (req : ActionRequest) (status now : ℤ) (ad : Ad E) : ad.SameIds (Queue.holdAd req status now ad) :=
  .of_butFor (holdAd_butFor req status now ad) (by decide) (by decide)

theorem releaseAd_ids (req : ActionRequest) (now : ℤ) (ad : Ad E) : ad.SameIds (Queue.releaseAd req now ad) :=
  .of_butFor (releaseAd_butFor req now ad) (by decide) (by decide)

/-! ## The protocol -/

def orderlyProtocol (E : Type) [ClassAdLib E] : Prog.Protocol (Cmd.Resp (E := E)) Unit where
  allowed := fun _ c =>
    match c with
    | .put k ad => Sys.KeyedAt k ad
    | .submit ev => ∀ k, ev.terminalFor k = false
    | _ => True
  expects := fun _ c =>
    match c with
    | .get k => fun r : Option (Ad E) => ∀ ad, r = some ad → Sys.KeyedAt k ad
    | .scan => fun r : List (Ad E) => (r.map Ad.ids).Nodup
    | _ => fun _ => True
  next := fun _ _ _ => ()

/-- one command of the protocol -/
theorem Store.perform_orderly (hkeyed : s.Keyed) (ch : Choice) {c : Cmd E}
    (hput : ∀ k ad, c = .put k ad → Sys.KeyedAt k ad) :
    (s.perform ch c).2.Keyed ∧ (orderlyProtocol E).expects () c (s.perform ch c).1 := by
  cases c with
  | get => exact ⟨hkeyed, fun ad hget => hkeyed.get hget⟩
  | put k ad =>
    simp only [Store.perform]
    split_ifs
    · exact ⟨Sys.keyed_put hkeyed (hput k ad rfl), trivial⟩
    · exact ⟨hkeyed, trivial⟩
  | delete => exact ⟨fun k' ad hl => hkeyed k' ad (KeyMap.lookup_of_erase hl), trivial⟩
  | scan => exact ⟨hkeyed, hkeyed.scan⟩
  | _ => exact ⟨hkeyed, trivial⟩

/-- the program keeps to the protocol, and its result satisfies `Q` -/
abbrev Orderly {α : Type} (Q : α → Prop) (p : Go E α) : Prop := Prog.wp (orderlyProtocol E) (fun _ a => Q a) p ()

namespace Orderly

variable {α β : Type} {Q : α → Prop} {Q' : β → Prop} {p : Go E α} {f : α → Go E β}

theorem bind (hp : Orderly Q p) (hf : ∀ a, Q a → Orderly Q' (f a)) : Orderly Q' (p.bind f) :=
  wp_bind.2 (wp_mono (fun _ a ha => hf a ha) hp)

variable (k : JobKey)

theorem get : Orderly (fun r => ∀ ad, r = some ad → Sys.KeyedAt k ad) (Go.get k : Go E (Option (Ad E))) :=
  ⟨trivial, fun _ hr => hr⟩

theorem clock : Orderly (fun _ => True) (Go.clock : Go E ℤ) := ⟨trivial, fun _ _ => trivial⟩

theorem expireSweep : Orderly (fun _ => True) (Go.expireSweep : Go E (List String)) := ⟨trivial, fun _ _ => trivial⟩

theorem submit {ev : Event} (h : ∀ k, ev.terminalFor k = false) : Orderly (fun _ => True) (Go.submit ev : Go E Unit) :=
  ⟨h, fun _ _ => trivial⟩

theorem jobStatus : Orderly (fun _ => True) (Queue.jobStatus k : Go E ℤ) := by
  refine (get k).bind fun r _ => ?_
  cases r <;> trivial

theorem modify {fn : Ad E → Ad E} (hfn : ∀ ad : Ad E, ad.SameIds (fn ad)) :
    Orderly (fun _ => True) (Queue.modify k fn) := by
  refine (get k).bind fun r hr => ?_
  cases r with
  | none => trivial
  | some ad => exact ⟨(hfn ad).keyed (hr ad rfl), fun _ _ => trivial⟩

theorem archiveAndDelete (ad : Ad E) : Orderly (fun _ => True) (archiveAndDelete k ad) :=
  ⟨trivial, fun _ _ => ⟨trivial, fun _ _ => ⟨trivial, fun _ _ => trivial⟩⟩⟩

theorem complete : Orderly (fun _ => True) (Queue.complete k : Go E Unit) := by
  refine (get k).bind fun r _ => ?_
  cases r with
  | none => trivial
  | some => exact clock.bind fun now _ => archiveAndDelete k _

end Orderly

/-! ## Actions -/

theorem vacate_orderly (hook : Bool) (k : JobKey) (status : ℤ) :
    Orderly (fun _ => True) (Queue.vacate hook k status : Go E Unit) :=
  wp_ite (fun _ => ⟨trivial, fun _ _ => ⟨trivial, fun _ _ => trivial⟩⟩) fun _ => trivial

theorem applyAction_orderly (q : Queue E) (hook : Bool) (k : JobKey) (req : ActionRequest) :
    Orderly (fun _ => True) (q.applyAction hook k req) := by
  have hremove : ∀ (ad : Ad E) (now : ℤ), Orderly (fun _ => True) (Queue.removeJob hook k req true ad now) := by
    intro ad now
    refine wp_ite (fun _ => trivial) fun _ => wp_ite (fun _ => trivial) fun _ => ?_
    exact (vacate_orderly hook k _).bind fun _ _ => (Orderly.archiveAndDelete k _).bind fun _ _ => trivial
  refine (Orderly.get k).bind fun r hr => ?_
  cases r with
  | none => trivial
  | some ad =>
    have hkeyed := hr ad rfl
    refine wp_ite (fun _ => trivial) fun _ => Orderly.clock.bind fun now _ => ?_
    cases hkind : req.kind with
    | hold =>
      refine wp_ite (fun _ => trivial) fun _ => wp_ite (fun _ => trivial) fun _ =>
        wp_ite (fun _ => trivial) fun _ => (vacate_orderly hook k _).bind fun _ _ => ?_
      refine ⟨(holdAd_ids req _ now ad).keyed hkeyed, fun ok _ => ?_⟩
      cases ok <;> trivial
    | release =>
      refine wp_ite (fun _ => trivial) fun _ => wp_ite (fun _ => trivial) fun _ =>
        wp_ite (fun _ => trivial) fun _ => ⟨(releaseAd_ids req now ad).keyed hkeyed, fun ok _ => ?_⟩
      cases ok <;> trivial
    | remove | removeX => exact hremove ad now

/-! ## Handlers -/

namespace Sched

/-- runs of distinct jobs, none of which has an entry -/
def FreshRuns (cfg : SchedConfig E) (core : Core) (runs : List (NewRun E)) : Prop :=
  (runs.map (·.key)).Nodup ∧ ∀ r ∈ runs, r.key ∉ core.running ∧ IsRun cfg r.key r.prog

variable (core : Core)

theorem freshRuns_nil : FreshRuns cfg core ([] : List (NewRun E)) :=
  ⟨List.nodup_nil, fun _ hr => absurd hr List.not_mem_nil⟩

variable (k : JobKey)

theorem logJob_orderly (f : Ad E → ULog E) : Orderly (fun _ => True) (logJob cfg k f) := by
  refine wp_ite (fun _ => (Orderly.get k).bind fun r _ => ?_) fun _ => trivial
  cases r <;> trivial

theorem requeueToIdle_orderly : Orderly (fun _ => True) (requeueToIdle k : Go E Unit) := by
  refine (Orderly.jobStatus k).bind fun status _ => wp_ite (fun _ => trivial) fun _ => ?_
  exact Orderly.clock.bind fun now _ => (Orderly.modify k (requeuedAd_ids now)).bind fun _ _ => trivial

theorem jobFailed_orderly (why : String) (count : Bool) : Orderly (fun _ => True) (jobFailed cfg k why count) := by
  refine (Orderly.jobStatus k).bind fun status _ => wp_ite (fun _ => trivial) fun _ => ?_
  refine Orderly.clock.bind fun now _ => (Orderly.get k).bind fun r hr => ?_
  cases r with
  | none => exact logJob_orderly cfg k _
  | some ad => exact ⟨(failedAd_ids cfg why count now ad).keyed (hr ad rfl), fun _ _ => logJob_orderly cfg k _⟩

theorem exitJob_orderly (res : RunResult) : Orderly (fun _ => True) (exitJob cfg k res) := by
  refine Orderly.clock.bind fun now _ => (Orderly.modify k (exitedAd_ids res now)).bind fun _ _ => ?_
  have hdecision : Orderly (fun _ => True) (exitDecision cfg k now) := by
    refine (Orderly.get k).bind fun r _ => ?_
    cases r <;> trivial
  refine hdecision.bind fun d _ => ?_
  cases d.action with
  | hold => exact (Orderly.modify k (heldOnExitAd_ids _ _ _ now)).bind fun _ _ => logJob_orderly cfg k _
  | requeue =>
    exact (Orderly.modify k fun ad =>
      .of_butFor ((Ad.ButFor.refl (S := statusAttrs) ad).moveTo _ _ _ (by decide)) (by decide) (by decide)).bind
        fun _ _ => logJob_orderly cfg k _
  | remove => exact (Orderly.submit fun _ => rfl).bind fun _ _ => trivial
  | _ => exact (logJob_orderly cfg k _).bind fun _ _ => (Orderly.complete k).bind fun _ _ => trivial

theorem requeueAll_orderly (ks : List JobKey) : Orderly (fun _ => True) (requeueAll ks : Go E Unit) := by
  induction ks with
  | nil => trivial
  | cons k ks ih => exact (requeueToIdle_orderly k).bind fun _ _ => ih

theorem renewAll_orderly (now : ℤ) (ks : List JobKey) : Orderly (fun _ => True) (renewAll now ks : Go E Unit) := by
  induction ks with
  | nil => trivial
  | cons k ks ih =>
    refine (Orderly.jobStatus k).bind fun status _ => wp_ite (fun _ => ?_) fun _ => ih
    have hrenew : ∀ ad : Ad E, ad.SameIds (ad.setInt .lastJobLeaseRenewal now) := fun ad => ⟨rfl, rfl⟩
    exact (Orderly.modify k hrenew).bind fun _ _ => ih

theorem expireAll_orderly (gone : List JobKey) (recs : List String) :
    Orderly (fun _ => True) (expireAll cfg core gone recs) := by
  induction recs generalizing gone with
  | nil => trivial
  | cons rec recs ih =>
    unfold expireAll
    cases expiredRun cfg core gone rec with
    | none => exact ih gone
    | some k => exact (requeueToIdle_orderly k).bind fun _ _ => ih (k :: gone)

theorem sweepExpired_orderly :
    Orderly (fun fin : Finish E => FreshRuns cfg core fin.runs) (sweepExpired cfg core).2 := by
  refine Orderly.clock.bind fun now _ => (renewAll_orderly now _).bind fun _ _ =>
    Orderly.expireSweep.bind fun recs _ => ?_
  exact (expireAll_orderly cfg core [] recs).bind fun _ _ => freshRuns_nil cfg core

/-- the runs of a recovery: at most one for each ad, under its ids, and none for a job with an entry -/
theorem recoverLoop_orderly (now : ℤ) (ads : List (Ad E)) :
    Orderly (fun r => (r.1.map (·.key)).Sublist (ads.map Ad.ids) ∧ ∀ n ∈ r.1, n.key ∉ core.running ∧
      IsRun cfg n.key n.prog)
      (recoverLoop cfg core now ads) := by
  induction ads with
  | nil => exact ⟨List.Sublist.refl _, fun n hn => absurd hn List.not_mem_nil⟩
  | cons ad ads ih =>
    -- an ad that is passed over
    have hskip : Orderly (fun r => (r.1.map (·.key)).Sublist ((ad :: ads).map Ad.ids) ∧
        ∀ n ∈ r.1, n.key ∉ core.running ∧ IsRun cfg n.key n.prog) (recoverLoop cfg core now ads) :=
      wp_mono (fun _ r hr => ⟨hr.1.cons _, hr.2⟩) ih
    unfold recoverLoop
    refine wp_ite (fun _ => hskip) fun hcond => ?_
    refine wp_ite (fun _ => (requeueToIdle_orderly _).bind fun _ _ => hskip) fun _ => ?_
    refine ih.bind fun rest hrest => ⟨hrest.1.cons_cons ad.ids, fun n hn => ?_⟩
    rcases List.mem_cons.1 hn with rfl | hn
    · exact ⟨fun hk => hcond (.inr hk), .inr ⟨_, ad, rfl⟩⟩
    · exact hrest.2 n hn

/-- **Every handler keeps to the protocol**, and starts runs of distinct jobs without an entry. -/
theorem handle_orderly (ev : Event) :
    Orderly (fun fin : Finish E => FreshRuns cfg core fin.runs) (handle cfg core ev).2 := by
  have hnil := freshRuns_nil cfg core
  cases ev with
  | evMatch m =>
    simp only [handle, handleMatch]
    split_ifs with h
    · exact hnil
    · refine (Orderly.jobStatus m.key).bind fun status _ => wp_ite (fun _ => hnil) fun _ => ?_
      refine (Orderly.get m.key).bind fun r _ => ?_
      cases r with
      | none => exact hnil
      | some =>
        refine ⟨List.nodup_singleton _, fun r hr => ?_⟩
        rw [List.mem_singleton.1 hr]
        exact ⟨fun hk => h (.inr (.inr (.inr (.inr hk)))), .inl ⟨m, rfl, rfl⟩⟩
  | evStarted k slotName =>
    refine Orderly.clock.bind fun now _ => (Orderly.modify k (startedAd_ids cfg slotName _ now)).bind fun ok _ => ?_
    exact wp_ite (fun _ => hnil) fun _ => (logJob_orderly cfg k _).bind fun _ _ => hnil
  | evExited k res =>
    refine wp_ite (fun _ => hnil) fun _ => ?_
    cases res with
    | none => exact (jobFailed_orderly cfg k _ _).bind fun _ _ => hnil
    | some res => exact (exitJob_orderly cfg k res).bind fun _ _ => hnil
  | evFailed k =>
    exact wp_ite (fun _ => hnil) fun _ => (jobFailed_orderly cfg k _ _).bind fun _ _ => hnil
  | evReschedule | evPolicyDone => exact hnil
  | evTeardown =>
    simp only [handle, handleTeardown]
    split_ifs <;> exact hnil
  | evDrain =>
    simp only [handle, handleDrain]
    split_ifs
    · exact hnil
    · exact (requeueAll_orderly _).bind fun _ _ => hnil
    · exact hnil
  | evReconnectFailed k =>
    exact wp_ite (fun _ => hnil) fun _ => (logJob_orderly cfg k _).bind fun _ _ =>
      (jobFailed_orderly cfg k _ _).bind fun _ _ => hnil
  | evRecover =>
    refine wp_ite (fun _ => hnil) fun _ => Orderly.clock.bind fun now _ => ⟨trivial, fun ads hads => ?_⟩
    exact (recoverLoop_orderly cfg core now ads).bind fun r hr => ⟨hr.1.nodup hads, hr.2⟩
  | evPolicyRemove k | evPolicyHold k | evPolicyRelease k =>
    refine wp_ite (fun _ => hnil) fun _ => (Orderly.jobStatus k).bind fun status _ => ?_
    exact wp_ite (fun _ => hnil) fun _ => hnil

end Sched

end

end AccessPoint
