/-
The failure budget of a job (internal/sched/sched.go, `jobFailed`; the release of internal/queue/actions.go).

A shadow that fails or panics is counted in `NumShadowExceptions`; the failure that makes the count reach the limit puts
the job on hold. The steps here are whole: an event or a tick of the sweep with its handler, or an action of a tool with
its writes. A run reports only while the registry has it, which `World.one_run` shows of its end and the order of the
channel of its start.

- `Store.Spares`: what a program does to the job when it neither counts nor releases; `Sched.Gentle` says it of every
  program but `jobFailed` and the release.
- `Scene.Sound`: the invariant, over the job, the registry and the failures counted since the last release.
- `Scene.failure_budget`: the count of a job that may run is exact and below the limit.
-/
import AccessPoint.Sched.Channels
import AccessPoint.Sched.OneRun

namespace AccessPoint

open ClassAdLib Store Sched Prog Queue

variable {E : Type}

/-! ## Whole steps -/

/-- the registry, the store, and the failures of one job counted since its last release -/
structure Scene (E : Type) where
  core : Core
  store : Store E
  count : ℤ

/-- what happens next, from its beginning to its end -/
inductive Deed where
  | input (i : Input)
  | act (k : JobKey) (req : ActionRequest)
deriving DecidableEq

section

variable [ClassAdLib E]

/-- the job waits for a run or has one -/
def Ad.InPlay (ad : Ad E) : Prop := ad.int0 .jobStatus = statusIdle ∨ ad.int0 .jobStatus = statusRunning

namespace Sched

/-- the shadow of `k` failed or panicked, in a run neither vacated nor detached -/
def failureCounts (core : Core) (k : JobKey) : Event → Bool
  | .evExited k' none err => k' = k && !abandoned core k && err ≠ some .detached
  | .evFailed k' err panicked _ _ => k' = k && panicked && !abandoned core k && err ≠ .detached
  | _ => false

end Sched

namespace Scene

/-- the deed is a counted failure: it is handled while the job is Running -/
def counts (k : JobKey) (σ : Scene E) : Deed → Bool
  | .input (.event ev) =>
    Sched.failureCounts σ.core k ev && (σ.store.get k).any fun ad => ad.int0 .jobStatus = statusRunning
  | _ => false

/-- one step for the job `k`; `q` gives the static part of the queue -/
def next (q : Queue E) (cfg : SchedConfig E) (k : JobKey) (σ : Scene E) (d : Deed × (ℕ → Choice)) : Scene E :=
  match d.1 with
  | .input i =>
    let r := σ.store.alone d.2 (i.handled cfg σ.core).2
    ⟨(i.handled cfg σ.core).1.after r.1, r.2.1, if σ.counts k d.1 then σ.count + 1 else σ.count⟩
  | .act k' req =>
    let r := σ.store.alone d.2 (q.applyAction cfg.hook k' req)
    ⟨σ.core, r.2.1, if k' = k ∧ req.kind = .release ∧ r.1.1 = arSuccess then 0 else σ.count⟩

/-- runs report while the registry has them, actions are about jobs, and writes succeed -/
def Plays (σ : Scene E) (d : Deed × (ℕ → Choice)) : Prop :=
  (∀ n, (d.2 n).ok = true) ∧
    match d.1 with
    | .input (.event ev) => ∀ k, ev.ofRun k = true → k ∈ σ.core.running
    | .input .sweep => True
    | .act k _ => 0 ≤ k.proc

end Scene

/-! ## What a program spares -/

/-- the counter of `k` is as before, and the job has not come into play; the latter only if `strict` -/
structure Store.Spares (k : JobKey) (strict : Prop) (s s' : Store E) : Prop where
  parent : s'.parentAd k = s.parentAd k
  job : ∀ ad', s'.get k = some ad' → ∃ ad, s.get k = some ad ∧ ad' .numShadowExceptions = ad .numShadowExceptions ∧
    (strict → ad'.InPlay → ad.InPlay)

namespace Store.Spares

variable {k k' : JobKey} {strict : Prop} {s s' s'' : Store E}

theorem refl (s : Store E) : Spares k strict s s := ⟨rfl, fun ad h => ⟨ad, h, rfl, fun _ => id⟩⟩

theorem trans (h : Spares k strict s s') (h' : Spares k strict s' s'') : Spares k strict s s'' := by
  refine ⟨h'.parent.trans h.parent, fun ad'' hget => ?_⟩
  obtain ⟨ad', hget', hsame', hplay'⟩ := h'.job ad'' hget
  obtain ⟨ad, hget, hsame, hplay⟩ := h.job ad' hget'
  exact ⟨ad, hget, hsame'.trans hsame, fun hs hin => hplay hs (hplay' hs hin)⟩

/-- a write of another job -/
theorem put_ne (hk' : 0 ≤ k'.proc) (hne : k ≠ k') (ad : Ad E) : Spares k strict s (s.put k' ad) := by
  refine ⟨?_, fun ad' hget => ?_⟩
  · exact parentAd_put s hk' ad k
  · rw [get_put_ne s hk' hne] at hget
    exact ⟨ad', hget, rfl, fun _ => id⟩

/-- a rewrite of the job that keeps the counter -/
theorem put_self (hk : 0 ≤ k.proc) {ad ad' : Ad E} (hget : s.get k = some ad)
    (hsame : ad' .numShadowExceptions = ad .numShadowExceptions)
    (hplay : strict → (ad'.chainTo (s.parentAd k)).InPlay → ad.InPlay) : Spares k strict s (s.put k ad') := by
  refine ⟨parentAd_put s hk ad' k, fun ad'' hget' => ?_⟩
  rw [get_put_self, Option.some.injEq] at hget'
  refine ⟨ad, hget, ?_, fun hs hin => hplay hs (hget' ▸ hin)⟩
  obtain ⟨_, -, rfl⟩ := get_eq_some.1 hget
  rw [← hget', Ad.chainTo_apply, hsame, Ad.chainTo_apply, Option.or_assoc, Option.or_self]

theorem delete (hk' : 0 ≤ k'.proc) : Spares k strict s (s.delete k') := by
  refine ⟨parentAd_delete s hk' k, fun ad' hget => ⟨ad', ?_, rfl, fun _ => id⟩⟩
  obtain ⟨_, hl, rfl⟩ := get_eq_some.1 hget
  rw [lookup_delete] at hl
  split_ifs at hl with he
  rw [parentAd_delete s hk' k]
  exact get_of_lookup hl

end Store.Spares

namespace Sched

/-- alone with the store, the program spares the job -/
def Gentle {α : Type} (k : JobKey) (strict : Prop) (p : Go E α) : Prop :=
  ∀ s env, Store.Spares k strict s (s.alone env p).2.1

namespace Gentle

variable {α β : Type} {k k' : JobKey} {strict : Prop} {p : Go E α} {f : α → Go E β}

theorem ret (a : α) : Gentle k strict (.ret a : Go E α) := fun s _ => .refl s

theorem bind (hp : Gentle k strict p) (hf : ∀ a, Gentle k strict (f a)) : Gentle k strict (p.bind f) := by
  intro s env
  rw [alone_bind]
  exact (hp s env).trans (hf _ _ _)

/-- a program that writes other jobs only -/
theorem of_tidy (h : Tidy (fun k' => k ≠ k' ∧ 0 ≤ k'.proc) p) : Gentle k strict p := by
  intro s env
  have hwp := h .none Copy.settled_none
  clear h
  generalize Copy.none = st at hwp
  induction p generalizing s env st with
  | ret => exact .refl s
  | call c f ih =>
    have hrest := ih _ (s.perform (env 0) c).2 (fun n => env (n + 1)) _ (hwp.2 (s.perform (env 0) c).1 trivial)
    refine Store.Spares.trans ?_ hrest
    have hall := hwp.1
    cases c with
    | put k' ad =>
      simp only [perform]
      split_ifs
      · exact .put_ne hall.1.2 hall.1.1 ad
      · exact .refl s
    | delete => exact .delete hall.1.2
    | _ => exact .refl s

/-- a rewrite of a job; of the job itself, one that keeps the counter -/
theorem modify (hk' : 0 ≤ k'.proc) {fn : Ad E → Ad E} {S : List Attr} (hfn : ∀ ad : Ad E, ad.ButFor S (fn ad))
    (hS : Attr.numShadowExceptions ∉ S)
    (hplay : k = k' → strict → ∀ (ad parent : Ad E), ((fn ad).chainTo parent).InPlay → ad.InPlay) :
    Gentle k strict (Queue.modify k' fn) := by
  by_cases hne : k = k'
  · subst hne
    intro s env
    cases hget : s.get k with
    | none =>
      have hsame : (s.alone env (Queue.modify k fn)).2.1 = s := by simp [Queue.modify, hget]
      rw [hsame]
      exact .refl s
    | some ad =>
      rw [modify_alone env hget]
      dsimp only
      split_ifs
      · exact .put_self hk' hget (hfn ad _ hS) fun hs => hplay rfl hs ad _
      · exact .refl s
  · exact of_tidy (modify_tidy ⟨hne, hk'⟩ fn)

end Gentle

variable {k k' : JobKey} {strict : Prop}

/-- whether a job with a status of its own is in play -/
theorem inPlay_chainTo {ad : Ad E} {status : ℤ} (h : ad .jobStatus = some (lit (.int status))) (parent : Ad E) :
    (ad.chainTo parent).InPlay ↔ status = statusIdle ∨ status = statusRunning := by
  have hown : ad.chainTo parent .jobStatus = some (lit (.int status)) := by rw [Ad.chainTo_apply, h, Option.some_or]
  rw [Ad.InPlay, Ad.int0_lit hown]

/-- a program that looks at the status of a job first -/
theorem Gentle.onStatus {α : Type} {f : ℤ → Go E α} (hidle : ∀ status ≠ statusRunning, Gentle k strict (f status))
    (hrun : ∀ s env ad, s.get k' = some ad → ad.int0 .jobStatus = statusRunning →
      Store.Spares k strict s (s.alone env (f statusRunning)).2.1) : Gentle k strict ((Queue.jobStatus k').bind f) := by
  intro s env
  simp only [jobStatus, bind_eq, alone_bind, alone_get]
  cases hget : s.get k' with
  | none => exact hidle 0 (by decide) s _
  | some ad =>
    by_cases hst : ad.int0 .jobStatus = statusRunning
    · have hspares := hrun s (fun n => env (n + 1)) ad hget hst
      rw [← hst] at hspares
      exact hspares
    · exact hidle _ hst s _

/-- a requeue finds the job Running -/
theorem requeueToIdle_gentle (hk' : 0 ≤ k'.proc) : Gentle k strict (requeueToIdle k' : Go E Unit) := by
  by_cases hne : k = k'
  · subst hne
    refine Gentle.onStatus (fun status hst => ?_) fun s env ad hget hst => ?_
    · rw [if_pos hst]
      exact .ret ()
    · rw [if_neg (by simp)]
      simp only [bind_eq, alone_bind, alone_clock, modify_alone _ hget]
      dsimp only [pure_eq, alone_ret]
      split_ifs
      · exact .put_self hk' hget (requeuedAd_butFor _ ad _ (by decide)) fun _ _ => .inr hst
      · exact .refl s
  · exact .of_tidy (requeueToIdle_of Tidy.ret Tidy.bind Tidy.get Tidy.clock fun _ => modify_tidy ⟨hne, hk'⟩ _)

/-- a renewal finds the job Running -/
theorem renewAll_gentle (now : ℤ) {ks : List JobKey} (hks : ∀ k' ∈ ks, 0 ≤ k'.proc) :
    Gentle k strict (renewAll now ks : Go E Unit) := by
  induction ks with
  | nil => exact .ret ()
  | cons k' ks ih =>
    have hrest := ih fun k'' hk'' => hks k'' (List.mem_cons_of_mem k' hk'')
    have hk' := hks k' List.mem_cons_self
    refine Gentle.onStatus (fun status hst => ?_) fun s env ad hget hst => ?_
    · rw [if_neg hst]
      exact hrest
    · rw [if_pos rfl]
      simp only [bind_eq, alone_bind, modify_alone _ hget]
      refine Store.Spares.trans ?_ (hrest _ _)
      split_ifs
      · by_cases hne : k = k'
        · subst hne
          exact .put_self hk' hget rfl fun _ _ => .inr hst
        · exact .put_ne hk' hne _
      · exact .refl s

variable (cfg : SchedConfig E) {s : Store E}

/-- the store after a failure of a Running job -/
theorem jobFailed_alone (why : String) (count : Bool) (env : ℕ → Choice) {ad : Ad E}
    (hget : s.get k = some ad) (hrun : ad.int0 .jobStatus = statusRunning) :
    (s.alone env (jobFailed cfg k why count)).2.1 =
      if (env 3).ok then s.put k (failedAd cfg why count (env 1).now ad) else s := by
  have hlog : ∀ (s' : Store E) (env' : ℕ → Choice) (f : Ad E → ULog E), (s'.alone env' (logJob cfg k f)).2.1 = s' := by
    intro s' env' f
    unfold logJob
    split_ifs
    · simp only [bind_eq, alone_bind, alone_get]
      cases s'.get k <;> rfl
    · rfl
  unfold jobFailed
  simp only [jobStatus, bind_eq, alone_bind, alone_get, hget, pure_eq, alone_ret]
  rw [if_neg (not_not.2 hrun)]
  simp only [alone_bind, alone_clock, alone_get, hget, alone_put, hlog]

/-- a failure of a job that is not Running changes nothing -/
theorem jobFailed_idle (why : String) (count : Bool) (env : ℕ → Choice)
    (hidle : ∀ ad, s.get k = some ad → ad.int0 .jobStatus ≠ statusRunning) :
    (s.alone env (jobFailed cfg k why count)).2.1 = s := by
  unfold jobFailed
  cases hget : s.get k with
  | none =>
    simp only [jobStatus, bind_eq, alone_bind, alone_get, hget, pure_eq, alone_ret]
    rw [if_pos (by decide)]
    rfl
  | some ad =>
    simp only [jobStatus, bind_eq, alone_bind, alone_get, hget, pure_eq, alone_ret]
    rw [if_pos (hidle ad hget)]
    rfl

/-- a failure that is not counted -/
theorem jobFailed_gentle (hk' : 0 ≤ k'.proc) (why : String) {count : Bool}
    (hcount : k = k' → count = false) : Gentle k strict (jobFailed cfg k' why count) := by
  by_cases hne : k = k'
  · subst hne
    obtain rfl := hcount rfl
    intro s env
    by_cases hrun : ∃ ad, s.get k = some ad ∧ ad.int0 .jobStatus = statusRunning
    · obtain ⟨ad, hget, hst⟩ := hrun
      rw [jobFailed_alone cfg why false env hget hst]
      split_ifs
      · refine .put_self hk' hget ?_ fun _ _ => .inr hst
        exact failedBase_butFor (env 1).now ad .numShadowExceptions (by decide)
      · exact .refl s
    · rw [jobFailed_idle cfg why false env fun ad hget hst => hrun ⟨ad, hget, hst⟩]
      exact .refl s
  · exact .of_tidy (jobFailed_tidy ⟨hne, hk'⟩ cfg why count)

theorem complete_gentle (hk' : 0 ≤ k'.proc) : Gentle k strict (Queue.complete k' : Go E Unit) := by
  intro s env
  simp only [complete, bind_eq, alone_bind, alone_get]
  cases s.get k' with
  | none => exact .refl s
  | some => exact .delete hk'

/-- the end of a run that delivered a result keeps the counter -/
theorem exitJob_gentle (hk' : 0 ≤ k'.proc) (hne : k = k' → ¬ strict) (res : RunResult) :
    Gentle k strict (exitJob cfg k' res) := by
  have hlog : ∀ f, Gentle k strict (logJob cfg k' f) := fun f => .of_tidy (logJob_tidy cfg k' f)
  have hmodify : ∀ {S : List Attr} {fn : Ad E → Ad E}, (∀ ad : Ad E, ad.ButFor S (fn ad)) →
    Attr.numShadowExceptions ∉ S →
      Gentle k strict (modify k' fn) :=
    fun hfn hS => .modify hk' hfn hS fun he hs => absurd hs (hne he)
  refine Gentle.bind (fun s _ => .refl s) fun now =>
    Gentle.bind (hmodify (exitedAd_butFor res now) (by decide)) fun _ => ?_
  have hdecision : Gentle k strict (exitDecision cfg k' now) := by
    refine Gentle.bind (fun s _ => .refl s) fun r => ?_
    cases r <;> exact .ret _
  refine hdecision.bind fun d => ?_
  cases d.action with
  | hold => exact (hmodify (heldOnExitAd_butFor _ _ _ now) (by decide)).bind fun _ => hlog _
  | requeue =>
    have hmoved : ∀ ad : Ad E, ad.ButFor statusAttrs (moveTo ad statusRunning statusIdle now) :=
      fun ad => (Ad.ButFor.refl ad).moveTo _ _ _ (by decide)
    exact (hmodify hmoved (by decide)).bind fun _ => hlog _
  | remove => exact fun s _ => .refl s
  | _ => exact (hlog _).bind fun _ => (complete_gentle hk').bind fun _ => .ret _

theorem gentle_parts : Parts cfg (fun k' => 0 ≤ k'.proc) fun _ p => Gentle k strict p where
  ret := Gentle.ret
  bind := Gentle.bind
  get := fun _ s _ => .refl s
  clock := fun s _ => .refl s
  scan := fun s _ => .refl s
  expireSweep := fun s _ => .refl s
  requeueToIdle := fun _ hk' => requeueToIdle_gentle hk'
  renewAll := fun now _ hks => renewAll_gentle now hks

variable (core : Core)

/-- **Every handler but that of a counted failure** spares the job; those of the run of the job may bring it into play.
-/
theorem handle_gentle {ev : Event} (hproc : ∀ k', writes core ev k' → 0 ≤ k'.proc)
    (hrun : strict → ev.ofRun k = false) (hcount : ¬ reportsFailure ev k true) :
    Gentle k strict (handle cfg core ev).2 := by
  refine (gentle_parts cfg).handle hproc ?_ ?_ ?_
  · rintro k' slotName claimID rfl claim now
    refine Gentle.modify (hproc k' rfl) (startedAd_butFor cfg slotName claim now) (by decide) ?_
    intro he hs
    have hnot := hrun hs
    simp [Event.ofRun, Event.startedFor, he] at hnot
  · intro k' why count hw hfail
    refine jobFailed_gentle cfg (hproc k' hw) why fun he => ?_
    subst he
    cases count with
    | false => rfl
    | true => exact absurd hfail hcount
  · rintro k' res err rfl
    refine exitJob_gentle cfg (hproc k' rfl) ?_ res
    intro he hs
    have hnot := hrun hs
    simp [Event.ofRun, Event.terminalFor, he] at hnot

/-- a recovery finds the jobs under their ids -/
theorem recover_spares (done : Option ℕ) (hkeyed : s.Keyed)
    (env : ℕ → Choice) : Store.Spares k strict s (s.alone env (handle cfg core (.evRecover done)).2).2.1 := by
  simp only [handle, handleRecover]
  split_ifs
  · exact .refl s
  · have hloop : Gentle k strict (recoverLoop cfg core (env 0).now s.scan) := by
      refine (gentle_parts cfg).recoverLoop _ fun ad hin _ => ?_
      obtain ⟨k', hk', hget⟩ := mem_scan.1 hin
      have hids : ad.ids = k' := (hkeyed.get hget).ids hk'
      exact (congrArg JobKey.proc hids).symm ▸ hk'
    have hstore := hloop s fun n => env (n + 2)
    simp only [bind_eq, alone_bind, alone_clock]
    exact hstore

/-- the run of a match is of a job found Idle -/
theorem handleMatch_starts (m : Match) (s : Store E) (env : ℕ → Choice) :
    ∀ r ∈ (s.alone env (handleMatch core m).2).1.runs, 0 ≤ r.key.proc ∧ ∃ ad, s.get r.key = some ad ∧ ad.InPlay := by
  unfold handleMatch
  intro r hr
  split_ifs at hr with hskip
  · cases hr
  push Not at hskip
  cases hget : s.get m.key with
  | none =>
    simp only [jobStatus, bind_eq, alone_bind, alone_get, hget, pure_eq,
      alone_ret] at hr
    rw [if_pos (by decide)] at hr
    cases hr
  | some ad =>
    simp only [jobStatus, bind_eq, alone_bind, alone_get, hget, pure_eq,
      alone_ret] at hr
    by_cases hst : ad.int0 .jobStatus = statusIdle
    · rw [if_neg (not_not.2 hst)] at hr
      simp only [alone_bind, alone_get, hget, alone_ret, List.mem_singleton] at hr
      rw [hr]
      exact ⟨hskip.2.2.1, ad, hget, .inl hst⟩
    · rw [if_pos hst] at hr
      cases hr

/-- a run starts for a job that is in play -/
theorem handled_starts (i : Input) (hkeyed : s.Keyed) (env : ℕ → Choice) :
    ∀ r ∈ (s.alone env (i.handled cfg core).2).1.runs, 0 ≤ r.key.proc ∧ ∃ ad, s.get r.key = some ad ∧ ad.InPlay := by
  have hnone : ∀ fin : Finish E, fin.runs = [] → ∀ r ∈ fin.runs, 0 ≤ r.key.proc ∧ ∃ ad, s.get r.key = some ad ∧
    ad.InPlay := by
    intro fin hfin r hr
    rw [hfin] at hr
    cases hr
  cases i with
  | sweep => exact hnone _ ((sweepExpired_finish cfg core).of_yields (alone_yields s env _)).1
  | event ev =>
    by_cases hev : ev.recovers = true
    · cases ev with
      | evRecover =>
        simp only [Input.handled, handle, handleRecover]
        split_ifs
        · exact hnone _ rfl
        · intro r hr
          have hruns := (recoverLoop_recovered cfg core (env 0).now s.scan).of_yields
            (alone_yields s (fun n => env (n + 2)) _)
          simp only [bind_eq, alone_bind, alone_clock] at hr
          obtain ⟨ad, hin, hrun⟩ := hruns r hr
          obtain ⟨k', hk', hget⟩ := mem_scan.1 hin
          have hkey : r.key = k' := hrun.key.trans ((hkeyed.get hget).ids hk')
          rw [hkey]
          exact ⟨hk', ad, hget, .inr hrun.status⟩
      | _ => cases hev
    · rw [Bool.not_eq_true] at hev
      have hfin := (handle_finish cfg core ev hev).of_yields (alone_yields s env _)
      cases hfin with
      | closes hruns _ => exact hnone _ hruns
      | starts m r hm =>
        subst hm
        exact handleMatch_starts core m s env

/-- a program of the protocol, alone with a store of ads under their ids, keeps it so -/
theorem Orderly.alone {α : Type} {Q : α → Prop} {p : Go E α} (h : Orderly Q p) (hkeyed : s.Keyed)
    (env : ℕ → Choice) : (s.alone env p).2.1.Keyed := by
  induction p generalizing s env with
  | ret => exact hkeyed
  | call c f ih =>
    have hput : ∀ k ad, c = .put k ad → Sys.KeyedAt k ad := by
      rintro k ad rfl
      exact h.1
    have hstep := perform_orderly hkeyed (env 0) hput
    exact ih _ (h.2 _ hstep.2) hstep.1 _

end Sched

/-! ## Actions -/

namespace Queue

variable {k k' : JobKey} {strict : Prop}

theorem removeJob_spares (hook : Bool) (hk : 0 ≤ k.proc) (req : ActionRequest) (ad : Ad E) (now : ℤ) (s : Store E)
    (env : ℕ → Choice) : Store.Spares k strict s (s.alone env (removeJob hook k req true ad now)).2.1 := by
  unfold removeJob
  by_cases hremoved : ad.int0 .jobStatus = statusRemoved
  · dsimp only
    rw [if_pos hremoved]
    exact .refl s
  · dsimp only
    rw [if_neg hremoved, if_neg (by simp)]
    simp only [bind_eq, alone_bind, vacate_alone]
    exact .delete hk

/-- a held job is not in play -/
theorem holdJob_spares (hook : Bool) (hk : 0 ≤ k.proc) (req : ActionRequest) {ad : Ad E} (now : ℤ) {s : Store E}
    (hget : s.get k = some ad) (env : ℕ → Choice) :
    Store.Spares k strict s (s.alone env (holdJob hook k req true ad now)).2.1 := by
  have hput : Store.Spares k strict s (s.put k (holdAd req (ad.int0 .jobStatus) now ad)) := by
    refine .put_self hk hget (holdAd_butFor _ _ _ ad _ (by decide)) fun _ hplay => ?_
    rw [inPlay_chainTo (holdAd_jobStatus _ _ _ ad)] at hplay
    exact absurd hplay (by decide)
  unfold holdJob
  dsimp only
  by_cases hheld : ad.int0 .jobStatus = statusHeld ∧ (ad.int0 .holdReasonCode = 1 ∨ ad.int0 .holdReasonCode = 16)
  · rw [if_pos hheld]
    exact .refl s
  by_cases hgone : ad.int0 .jobStatus = statusRemoved ∨ ad.int0 .jobStatus = statusCompleted
  · rw [if_neg hheld, if_pos hgone]
    exact .refl s
  rw [if_neg hheld, if_neg hgone, if_neg (by simp)]
  simp only [bind_eq, alone_bind, vacate_alone, alone_put]
  split_ifs
  · exact hput
  · exact .refl s

variable {req : ActionRequest} (q : Queue E)

/-- an action on another job, a hold and a removal spare the job -/
theorem applyAction_gentle (hook : Bool) (hk' : 0 ≤ k'.proc)
    (hreq : k = k' → req.kind ≠ .release) : Sched.Gentle k strict (q.applyAction hook k' req) := by
  by_cases hne : k = k'
  · subst hne
    intro s env
    unfold applyAction actOnJob
    cases hget : s.get k with
    | none =>
      simp only [bind_eq, alone_bind, alone_get, hget]
      exact .refl s
    | some ad =>
      simp only [bind_eq, alone_bind, alone_get, hget]
      by_cases hmay : q.mayAct req ad = true
      · rw [if_neg (not_not.2 hmay)]
        simp only [alone_bind, alone_clock]
        cases hkind : req.kind with
        | release => exact absurd hkind (hreq rfl)
        | remove | removeX => exact removeJob_spares hook hk' req ad _ s _
        | hold => exact holdJob_spares hook hk' req _ hget _
      · rw [if_pos hmay]
        exact .refl s
  · exact .of_tidy (applyAction_tidy ⟨hne, hk'⟩ q hook req)

/-- a release that does not report success changes nothing -/
theorem release_refused (hook : Bool) (hreq : req.kind = .release) {s : Store E}
    {env : ℕ → Choice} (hr : (s.alone env (q.applyAction hook k req)).1.1 ≠ arSuccess) :
    (s.alone env (q.applyAction hook k req)).2.1 = s := by
  unfold applyAction actOnJob at hr ⊢
  cases hget : s.get k with
  | none =>
    simp only [bind_eq, alone_bind, alone_get, hget]
    rfl
  | some ad =>
    simp only [bind_eq, alone_bind, alone_get, hget] at hr ⊢
    by_cases hmay : q.mayAct req ad = true
    · rw [if_neg (not_not.2 hmay)] at hr ⊢
      simp only [alone_bind, alone_clock, hreq, releaseJob] at hr ⊢
      by_cases hheld : ad.int0 .jobStatus ≠ statusHeld
      · rw [if_pos hheld]
        rfl
      by_cases hcode : ad.int0 .holdReasonCode = 16
      · rw [if_neg hheld, if_pos hcode]
        rfl
      rw [if_neg hheld, if_neg hcode, if_neg (by simp)] at hr ⊢
      simp only [bind_eq, alone_bind, alone_put] at hr ⊢
      split_ifs at hr ⊢
      · exact absurd rfl hr
      · rfl
    · rw [if_pos hmay]
      rfl

/-- a release that reports success has put the released ad -/
theorem release_alone (hook : Bool) (hreq : req.kind = .release) {s : Store E}
    {env : ℕ → Choice} (hr : (s.alone env (q.applyAction hook k req)).1.1 = arSuccess) :
    ∃ ad now, s.get k = some ad ∧ (s.alone env (q.applyAction hook k req)).2.1 = s.put k (releaseAd req now ad) := by
  cases hget : s.get k with
  | none =>
    simp only [applyAction, actOnJob, bind_eq, alone_bind, alone_get, hget] at hr
    exact absurd (show arNotFound = arSuccess from hr) (by decide)
  | some ad =>
    have hact := actOnJob_alone q hook req hget hr
    rw [hreq] at hact
    refine ⟨ad, (env 1).now, rfl, ?_⟩
    rw [applyAction, hact] at hr ⊢
    exact releaseJob_alone req _ hr

end Queue

/-! ## The invariant -/

/-- the counter after `n` failures -/
def tally (n : ℤ) : Option E := if n = 0 then none else some (lit (.int n))

theorem int0_tally {ad : Ad E} {a : Attr} {n : ℤ} (h : ad a = tally n) : ad.int0 a = n := by
  unfold tally at h
  split_ifs at h with hn
  · rw [Ad.int0, Ad.evaluateAttrInt, Ad.evaluateAttr, h, hn]
    rfl
  · exact Ad.int0_lit h

namespace Scene

structure Sound (cfg : SchedConfig E) (k : JobKey) (σ : Scene E) : Prop where
  procs : ∀ k' ∈ σ.core.running, 0 ≤ k'.proc
  keyed : σ.store.Keyed
  parent : σ.store.parentAd k .numShadowExceptions = none
  nonneg : 0 ≤ σ.count
  counter : ∀ ad, σ.store.get k = some ad → ad .numShadowExceptions = tally σ.count
  /-- what may fail once more has failures left -/
  below : ∀ ad, σ.store.get k = some ad → ad.InPlay ∨ k ∈ σ.core.running → σ.count < cfg.maxExceptions

variable {q : Queue E} {cfg : SchedConfig E} {k : JobKey} {σ : Scene E} {core : Core}

/-- a step that spares the job; one that may bring it into play is a report of its run -/
theorem Sound.spared (h : Sound cfg k σ) {strict : Prop} {s : Store E}
    (hspares : Store.Spares k strict σ.store s) (hrun : ¬ strict → k ∈ σ.core.running) (hkeyed : s.Keyed)
    (hprocs : ∀ k' ∈ core.running, 0 ≤ k'.proc)
    (hstart : k ∈ core.running → k ∈ σ.core.running ∨ ∃ ad, σ.store.get k = some ad ∧ ad.InPlay) :
    Sound cfg k ⟨core, s, σ.count⟩ where
  procs := hprocs
  keyed := hkeyed
  parent := by rw [hspares.parent]; exact h.parent
  nonneg := h.nonneg
  counter := by
    intro ad' hget'
    obtain ⟨ad, hget, hsame, -⟩ := hspares.job ad' hget'
    exact hsame.trans (h.counter ad hget)
  below := by
    intro ad' hget' hwhy
    obtain ⟨ad, hget, -, hplay⟩ := hspares.job ad' hget'
    refine h.below ad hget ?_
    rcases hwhy with hin | hin
    · by_cases hs : strict
      · exact .inl (hplay hs hin)
      · exact .inr (hrun hs)
    · rcases hstart hin with hin | ⟨ad₁, hget₁, hplay₁⟩
      · exact .inr hin
      · rw [hget, Option.some.injEq] at hget₁
        exact .inl (hget₁ ▸ hplay₁)

/-- the ad after a counted failure -/
theorem failedAd_counted (cfg : SchedConfig E) (why : String) (now : ℤ) {ad : Ad E} {n : ℤ}
    (h : ad .numShadowExceptions = tally n) :
    failedAd cfg why true now ad .numShadowExceptions = some (lit (.int (n + 1))) ∧
      failedAd cfg why true now ad .jobStatus =
        some (lit (.int (if cfg.maxExceptions ≤ n + 1 then statusHeld else statusIdle))) ∧
      (cfg.maxExceptions ≤ n + 1 →
        failedAd cfg why true now ad .holdReasonCode = some (lit (.int holdCodeShadowException))) := by
  have hbase : failedBase now ad .numShadowExceptions = tally n := (failedBase_butFor now ad _ (by decide)).trans h
  have hfail : failures true now ad = n + 1 := by rw [failures, if_pos rfl, int0_tally hbase]
  unfold failedAd
  simp only [if_true, hfail, exhausted, Bool.true_and, decide_eq_true_eq]
  split_ifs with hmax
  · exact ⟨rfl, rfl, fun _ => rfl⟩
  · exact ⟨rfl, rfl, fun hle => absurd hle hmax⟩

/-- a counted failure: one more, and on hold if there is none left -/
theorem Sound.counted (h : Sound cfg k σ) (hk : 0 ≤ k.proc) {ad : Ad E} (hget : σ.store.get k = some ad)
    (hprocs : ∀ k' ∈ core.running, 0 ≤ k'.proc)
    (hgone : k ∉ core.running) (why : String) (now : ℤ) :
    Sound cfg k ⟨core, σ.store.put k (failedAd cfg why true now ad), σ.count + 1⟩ := by
  obtain ⟨hcounter, hstatus, -⟩ := failedAd_counted cfg why now (h.counter ad hget)
  have hpos : σ.count + 1 ≠ 0 := by have := h.nonneg; omega
  have hflat : ∀ ad', (σ.store.put k (failedAd cfg why true now ad)).get k = some ad' →
      ad' = (failedAd cfg why true now ad).chainTo (σ.store.parentAd k) := by
    intro ad' hget'
    rw [Store.get_put_self, Option.some.injEq] at hget'
    exact hget'.symm
  refine ⟨hprocs, ?_, ?_, ?_, ?_, ?_⟩
  · exact Sys.keyed_put h.keyed ((failedAd_ids cfg why true now ad).keyed (h.keyed.get hget))
  · rw [parentAd_put _ hk]
    exact h.parent
  · show 0 ≤ σ.count + 1
    have := h.nonneg
    omega
  · intro ad' hget'
    rw [hflat ad' hget', Ad.chainTo_apply, hcounter, Option.some_or, tally, if_neg hpos]
  · intro ad' hget' hwhy
    rcases hwhy with hplay | hin
    · rw [hflat ad' hget', inPlay_chainTo hstatus] at hplay
      by_contra hle
      rw [if_pos (not_lt.1 hle)] at hplay
      exact absurd hplay (by decide)
    · exact absurd hin hgone

/-- a release: the count begins anew -/
theorem Sound.released (hmax : 1 ≤ cfg.maxExceptions) (hk : 0 ≤ k.proc) (h : Sound cfg k σ) {ad : Ad E}
    (hget : σ.store.get k = some ad) (req : ActionRequest) (now : ℤ) :
    Sound cfg k ⟨σ.core, σ.store.put k (Queue.releaseAd req now ad), 0⟩ := by
  have hnone : releaseAd req now ad .numShadowExceptions = none := by
    unfold releaseAd
    split_ifs <;> simp [Ad.setStr_apply, Ad.delete_apply]
  refine ⟨h.procs, ?_, ?_, le_refl _, ?_, fun _ _ _ => ?_⟩
  · exact Sys.keyed_put h.keyed ((releaseAd_ids req now ad).keyed (h.keyed.get hget))
  · rw [parentAd_put _ hk]
    exact h.parent
  · intro ad' hget'
    rw [Store.get_put_self, Option.some.injEq] at hget'
    rw [← hget', Ad.chainTo_apply, hnone, Option.none_or, h.parent]
    rfl
  · exact lt_of_lt_of_le Int.zero_lt_one hmax

/-- the handler of a failure of the kind that counts -/
theorem handle_failure (cfg : SchedConfig E) (core : Core) {ev : Event} (h : Sched.reportsFailure ev k true) :
    ev.terminalFor k = true ∧ ∃ why close, (Sched.handle cfg core ev).2 =
      if Sched.failureCounts core k ev then
        (Sched.jobFailed cfg k why true).bind fun logged => .ret { close := close, ulog := logged }
      else .ret { close := close } := by
  cases ev with
  | evExited k' res err =>
    cases res with
    | some => exact absurd h id
    | none =>
      obtain rfl := h.1
      refine ⟨by simp [Event.terminalFor], errText err, (reap core k).2, ?_⟩
      simp only [handle, handleExited, failureCounts]
      by_cases hgone : abandoned core k = true ∨ err = some .detached
      · rw [if_pos hgone, if_neg (by cases hb : abandoned core k <;> simp_all)]
        rfl
      · rw [if_neg hgone, if_pos (by cases hb : abandoned core k <;> simp_all)]
        rfl
  | evFailed k' err =>
    obtain ⟨rfl, rfl⟩ := h
    refine ⟨by simp [Event.terminalFor], errText (some err), (reap core k).2, ?_⟩
    simp only [handle, handleFailed, failureCounts]
    by_cases hgone : abandoned core k = true ∨ err = .detached
    · rw [if_pos hgone, if_neg (by cases hb : abandoned core k <;> simp_all)]
      rfl
    · rw [if_neg hgone, if_pos (by cases hb : abandoned core k <;> simp_all)]
      rfl
  | evReconnectFailed => exact absurd h.2 (by decide)
  | _ => exact absurd h id

theorem reportsFailure_of_counts {ev : Event} (h : Sched.failureCounts core k ev = true) :
    Sched.reportsFailure ev k true := by
  cases ev with
  | evExited k' res =>
    cases res with
    | some => cases h
    | none =>
      simp only [failureCounts, Bool.and_eq_true, decide_eq_true_eq] at h
      exact ⟨h.1.1.symm, rfl⟩
  | evFailed =>
    simp only [failureCounts, Bool.and_eq_true, decide_eq_true_eq] at h
    exact ⟨h.1.1.1.symm, h.1.1.2.symm⟩
  | _ => cases h

/-- a counted failure takes a Running job one further, and its run is gone -/
theorem counted_store (cfg : SchedConfig E) {ev : Event} (hc : σ.counts k (.input (.event ev)) = true)
    {env : ℕ → Choice}
    (hok : ∀ n, (env n).ok = true) :
    ev.terminalFor k = true ∧ ∃ ad why now, σ.store.get k = some ad ∧
      (σ.store.alone env (Sched.handle cfg σ.core ev).2).2.1 = σ.store.put k (failedAd cfg why true now ad) := by
  simp only [counts, Bool.and_eq_true, Option.any_eq_true, decide_eq_true_eq] at hc
  obtain ⟨hfail, ad, hget, hrun⟩ := hc
  obtain ⟨hterm, why, _, hprog⟩ := handle_failure cfg σ.core (reportsFailure_of_counts hfail)
  refine ⟨hterm, ad, why, (env 1).now, hget, ?_⟩
  rw [hprog, if_pos hfail, alone_bind]
  exact (jobFailed_alone cfg why true env hget hrun).trans (if_pos (hok 3))

/-- the run of a terminal event leaves the registry -/
theorem terminal_gone (core : Core) {ev : Event} (hev : ev.terminalFor k = true) {fin : Finish E}
    (hfin : Prog.Yields (Sched.handle cfg core ev).2 fin) : k ∉ ((Sched.handle cfg core ev).1.after fin).running := by
  intro hin
  have hrec : ev.recovers = false := by cases ev <;> simp_all [Event.terminalFor, Event.recovers]
  have hleaves := (handle_finish cfg core ev hrec).of_yields hfin
  have hruns : fin.runs = [] := by
    cases hleaves with
    | closes hruns => exact hruns
    | starts m r hm =>
      subst hm
      cases hev
  have hkept := ((handle_registry cfg core ev).1 k (Core.mem_after hruns hin)).2
  rw [hev] at hkept
  cases hkept

/-- a handler whose event is no counted failure spares the job -/
theorem Sound.uncounted_spares (h : Sound cfg k σ) {ev : Event} (hrun : ∀ k', ev.ofRun k' = true → k' ∈ σ.core.running)
    (hc : σ.counts k (.input (.event ev)) = false) (env : ℕ → Choice) :
    Store.Spares k (ev.ofRun k = false) σ.store (σ.store.alone env (Sched.handle cfg σ.core ev).2).2.1 := by
  by_cases hrec : ev.recovers = true
  · cases ev with
    | evRecover done => exact recover_spares cfg σ.core done h.keyed env
    | _ => cases hrec
  have hproc : ∀ k', writes σ.core ev k' → 0 ≤ k'.proc := by
    intro k' hw
    refine h.procs k' ?_
    cases ev with
    | evStarted | evExited | evFailed | evReconnectFailed =>
      exact hrun k' (by simp [Event.ofRun, Event.startedFor, Event.terminalFor, show k' = _ from hw])
    | evDrain => exact hw
    | evRecover => exact absurd rfl hrec
    | _ => exact absurd hw id
  by_cases hfail : reportsFailure ev k true
  · -- it does not count: the run was given up, or the job is not Running
    obtain ⟨-, why, _, hprog⟩ := handle_failure cfg σ.core hfail
    rw [hprog]
    split_ifs with hcounts
    · have hidle : ∀ ad, σ.store.get k = some ad → ad.int0 .jobStatus ≠ statusRunning := by
        intro ad hget hst
        simp [counts, hcounts, hget, hst] at hc
      rw [alone_bind]
      refine Store.Spares.trans ?_ (.refl _)
      rw [jobFailed_idle cfg why true env hidle]
      exact .refl _
    · exact .refl _
  · exact handle_gentle cfg σ.core hproc id hfail σ.store env

/-- **The step.** -/
theorem Sound.next (hmax : 1 ≤ cfg.maxExceptions) (hk : 0 ≤ k.proc) (h : Sound cfg k σ) {d : Deed × (ℕ → Choice)}
    (hd : σ.Plays d) : Sound cfg k (σ.next q cfg k d) := by
  obtain ⟨d, env⟩ := d
  obtain ⟨hok, hplays⟩ := hd
  cases d with
  | input i =>
    -- the registry: entries that were there, and those of jobs in play
    have hstarts := handled_starts cfg σ.core i h.keyed env
    have hentry : ∀ k' ∈ ((i.handled cfg σ.core).1.after (σ.store.alone env (i.handled cfg σ.core).2).1).running,
        k' ∈ σ.core.running ∨ 0 ≤ k'.proc ∧ ∃ ad, σ.store.get k' = some ad ∧ ad.InPlay := by
      intro k' hin
      rcases Core.mem_after_or hin with hin | ⟨r, hr, rfl⟩
      · cases i with
        | sweep => exact .inl hin
        | event ev => exact .inl ((handle_registry cfg σ.core ev).1 k' hin).1
      · exact .inr (hstarts r hr)
    have hprocs : ∀ k' ∈ ((i.handled cfg σ.core).1.after (σ.store.alone env (i.handled cfg σ.core).2).1).running,
        0 ≤ k'.proc := fun k' hin => (hentry k' hin).elim (h.procs k') And.left
    cases i with
    | sweep =>
      have hspares : Store.Spares k True σ.store (σ.store.alone env (sweepExpired cfg σ.core).2).2.1 :=
        (gentle_parts cfg).sweepExpired (fun k' ri hl _ =>
          h.procs k' ((KeyMap.mem_iff_lookup _ _).2 ⟨ri, hl⟩)) _ env
      exact h.spared hspares (fun hs => absurd trivial hs)
        (Sched.Orderly.alone (sweepExpired_orderly cfg σ.core) h.keyed env) hprocs fun hin =>
          (hentry k hin).imp_right And.right
    | event ev =>
      have hkeyed := Sched.Orderly.alone (handle_orderly cfg σ.core ev) h.keyed env
      cases hc : σ.counts k (.input (.event ev)) with
      | false =>
        have hnext := h.spared (h.uncounted_spares hplays hc env) (fun hs => hplays k (by simpa using hs)) hkeyed hprocs
          fun hin => (hentry k hin).imp_right And.right
        simpa [Scene.next, Input.handled, hc] using hnext
      | true =>
        obtain ⟨hterm, ad, why, now, hget, hstore⟩ := counted_store cfg hc hok
        have hgone := terminal_gone σ.core hterm (alone_yields σ.store env (handle cfg σ.core ev).2)
        have hnext := h.counted hk hget hprocs hgone why now
        simpa [Scene.next, Input.handled, hc, hstore] using hnext
  | act k' req =>
    by_cases hrel : k' = k ∧ req.kind = .release
    · obtain ⟨rfl, hkind⟩ := hrel
      by_cases hr : (σ.store.alone env (q.applyAction cfg.hook k' req)).1.1 = arSuccess
      · obtain ⟨_, now, hget, hstore⟩ := release_alone q cfg.hook hkind hr
        have hnext := h.released hmax hk hget req now
        simpa [Scene.next, hkind, hr, hstore] using hnext
      · have hstore := release_refused q cfg.hook hkind hr
        simpa [Scene.next, hr, hstore] using h
    · have hspares : Store.Spares k True σ.store (σ.store.alone env (q.applyAction cfg.hook k' req)).2.1 :=
        applyAction_gentle q cfg.hook hplays (fun he hkind => hrel ⟨he.symm, hkind⟩) σ.store env
      have hnext := h.spared hspares (fun hs => absurd trivial hs)
        (Sched.Orderly.alone (applyAction_orderly q cfg.hook k' req) h.keyed env) h.procs .inl
      have hsame : ¬ (k' = k ∧ req.kind = .release ∧
        (σ.store.alone env (q.applyAction cfg.hook k' req)).1.1 = arSuccess) := fun he => hrel ⟨he.1, he.2.1⟩
      simp only [Scene.next, if_neg hsame]
      exact hnext

/-- the job is there and has no count -/
structure Begins (k : JobKey) (σ : Scene E) : Prop where
  procs : ∀ k' ∈ σ.core.running, 0 ≤ k'.proc
  keyed : σ.store.Keyed
  job : ∃ ad, σ.store.get k = some ad ∧ ad .numShadowExceptions = none
  count : σ.count = 0

theorem Begins.sound (hmax : 1 ≤ cfg.maxExceptions) (h : Begins k σ) : Sound cfg k σ := by
  obtain ⟨_, hget, hnone⟩ := h.job
  have hown := hnone
  obtain ⟨_, -, hflat⟩ := get_eq_some.1 hget
  rw [← hflat, Ad.chainTo_apply, Option.or_eq_none_iff] at hown
  refine ⟨h.procs, h.keyed, hown.2, h.count.ge, ?_, fun _ _ _ => ?_⟩
  · intro ad' hget'
    rw [hget, Option.some.injEq] at hget'
    rw [← hget', hnone, h.count]
    rfl
  · rw [h.count]
    exact lt_of_lt_of_le Int.zero_lt_one hmax

/-- **The failure budget.** Whatever happens, one thing after the other, while the job is Idle or Running its counter is
the number of failures counted since its last release and below the limit; a counted failure that reaches the limit
leaves it on hold with code 1002, and no other event changes the counter. -/
theorem failure_budget (q : Queue E) (hmax : 1 ≤ cfg.maxExceptions) (hk : 0 ≤ k.proc) (hbegins : Begins k σ)
    {deeds : List (Deed × (ℕ → Choice))} (hplays : Runs.Meets (next q cfg k) Plays σ deeds) :
    let now := deeds.foldl (next q cfg k) σ
    (∀ ad, now.store.get k = some ad → ad.int0 .jobStatus = statusIdle ∨ ad.int0 .jobStatus = statusRunning →
        ad.int0 .numShadowExceptions = now.count ∧ now.count < cfg.maxExceptions) ∧
      ∀ d, now.Plays d →
        (now.counts k d.1 = true → (now.next q cfg k d).count = cfg.maxExceptions →
          ∃ ad, (now.next q cfg k d).store.get k = some ad ∧ ad.int0 .jobStatus = statusHeld ∧
            ad.int0 .holdReasonCode = 1002) ∧
        ∀ ev, d.1 = .input (.event ev) → now.counts k d.1 = false →
          ∀ ad', (now.next q cfg k d).store.get k = some ad' →
            ∃ ad, now.store.get k = some ad ∧ ad'.int0 .numShadowExceptions = ad.int0 .numShadowExceptions := by
  intro now
  have hsound : Sound cfg k now :=
    Runs.foldl_inv_of (fun _ _ hd h => h.next hmax hk hd) (hbegins.sound hmax) hplays
  refine ⟨fun ad hget hplay => ⟨int0_tally (hsound.counter ad hget), hsound.below ad hget (.inl hplay)⟩, ?_⟩
  rintro ⟨d, env⟩ hd
  refine ⟨fun hc hreach => ?_, ?_⟩
  · cases d with
    | input i =>
      cases i with
      | event =>
        obtain ⟨-, ad, why, time, hget, hstore⟩ := counted_store cfg hc hd.1
        obtain ⟨-, hstatus, hcode⟩ := failedAd_counted cfg why time (hsound.counter ad hget)
        have hfull : cfg.maxExceptions ≤ now.count + 1 := by
          simp only [next, hc, if_true] at hreach
          exact hreach.ge
        rw [if_pos hfull] at hstatus
        refine ⟨(failedAd cfg why true time ad).chainTo (now.store.parentAd k), ?_, ?_, ?_⟩
        · simp only [next, Input.handled, hstore]
          exact Store.get_put_self _ _ _
        · exact Ad.int0_lit (by rw [Ad.chainTo_apply, hstatus, Option.some_or])
        · exact Ad.int0_lit (by rw [Ad.chainTo_apply, hcode hfull, Option.some_or]; rfl)
      | sweep => cases hc
    | act => cases hc
  · rintro ev rfl hc ad' hget'
    obtain ⟨ad, hget, hsame, -⟩ := (hsound.uncounted_spares hd.2 hc env).job ad' hget'
    have hcounter := hsound.counter ad hget
    exact ⟨ad, hget, (int0_tally (hsame.trans hcounter)).trans (int0_tally hcounter).symm⟩

end Scene

end

/-- the job of alice is matched and started, and its shadow panics; then it is matched and started again -/
def alicePanics : List (Deed × (ℕ → Choice)) :=
  [.input (.event (.evMatch aliceMatch)), .input (.event (.evStarted ⟨1, 0⟩ "slot1@ep" "")),
    .input (.event (.evFailed ⟨1, 0⟩ (.other "nil map") true "" false)), .input (.event (.evMatch aliceMatch)),
    .input (.event (.evStarted ⟨1, 0⟩ "slot1@ep" ""))].map fun d => (d, fun _ => smooth)

/-- the job runs again, with one failure on its count -/
theorem Scene.alice_runs_again :
    let now := alicePanics.foldl (Scene.next aliceQueue poolSched ⟨1, 0⟩) ⟨.init, aliceQueue.coll, 0⟩
    now.count = 1 ∧ (now.store.get ⟨1, 0⟩).map (fun ad => ad.int0 .jobStatus) = some statusRunning ∧
      ∀ ad, now.store.get ⟨1, 0⟩ = some ad → ad.int0 .jobStatus = statusIdle ∨ ad.int0 .jobStatus = statusRunning →
        ad.int0 .numShadowExceptions = now.count ∧ now.count < poolSched.maxExceptions := by
  intro now
  have hbegins : Scene.Begins ⟨1, 0⟩ (⟨.init, aliceQueue.coll, 0⟩ : Scene Value) := by
    refine ⟨?_, fun k ad hl => Sys.reachable_wellKeyed aliceQueue_reachable hl, ?_, rfl⟩
    · exact fun k' hk' => absurd hk' (by simp [Core.init])
    · exact ⟨(aliceQueue.coll.get ⟨1, 0⟩).get (by decide +kernel), by simp, by decide +kernel⟩
  have hown : ∀ {ev : Event} {k : JobKey}, ev.ofRun ⟨1, 0⟩ = true → ev.ofRun k = true → (⟨1, 0⟩ : JobKey) = k :=
    fun h h' => Event.ofRun_inj h h'
  have hplays : Runs.Meets (Scene.next aliceQueue poolSched ⟨1, 0⟩) Scene.Plays ⟨.init, aliceQueue.coll, 0⟩
    alicePanics := by
    refine ⟨⟨fun _ => rfl, fun k hk => by cases hk⟩, ⟨fun _ => rfl, fun k hk => ?_⟩, ⟨fun _ => rfl, fun k hk => ?_⟩,
      ⟨fun _ => rfl, fun k hk => by cases hk⟩, ⟨fun _ => rfl, fun k hk => ?_⟩, trivial⟩
    all_goals
      obtain rfl := hown (by decide) hk
      decide +kernel
  exact ⟨by decide +kernel, by decide +kernel,
    (Scene.failure_budget aliceQueue (by decide) (by decide) hbegins hplays).1⟩

end AccessPoint
