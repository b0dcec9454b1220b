/-
The exit of a job and a reconnect-preserving drain (internal/sched/sched.go, `handleExited`, `handleDrain`;
shadow/shadow.go, `afterServe`).

The shadow decides by its Detach flag and by whether it has received job_exit, the core by the mark a drain leaves in
the registry. A run that returns a result has given its claim back; the core then settles the job by its on-exit policy,
unless the drain was taken first: the mark makes it leave the job Running, to be re-attached to a claim that is gone.

- `exitJob_ends`: what the core does with a job whose run has delivered a result.
- `Exits`: over every execution, a run that is not vacated is detached exactly in a drain, and no result comes with the
  mark of a detached shadow.
- `received_exit_settled_iff`: the job is settled exactly when the drain was not taken before the exit.
-/
import AccessPoint.Shadow
import AccessPoint.Sched.Abandoned
import AccessPoint.Sched.Bookkeeping
import AccessPoint.Sched.Undisturbed

namespace AccessPoint

open ClassAdLib Sched List

section

variable {E : Type}

/-! ## What becomes of the job -/

section

variable [ClassAdLib E]

open World Prog

namespace Sched

/-- what the on-exit policy says of the job with the exit recorded -/
def onExitDecision (cfg : SchedConfig E) (s : Store E) (k : JobKey) (res : RunResult) (now : ℤ) (ad : Ad E) :
    Policy.Decision :=
  Policy.analyze (((exitedAd res now ad).chainTo (s.parentAd k)).setInt .currentTime now) .periodicThenExit
    cfg.sysPolicy
    statusRunning

/-- the job is held, back to Idle, handed to the removal, or completed and archived, as the policy says -/
def ExitHandled (k : JobKey) (d : Policy.Decision) (m m' : Queue E × List Event) : Prop :=
  match d.action with
  | .hold => ∃ ad, m'.1.coll.get k = some ad ∧ ad.int0 .jobStatus = statusHeld
  | .requeue => ∃ ad, m'.1.coll.get k = some ad ∧ ad.int0 .jobStatus = statusIdle
  | .remove => m'.2 = m.2 ++ [.evPolicyRemove k d.reason]
  | _ => m'.1.coll.get k = none ∧ ∃ ad, m'.1.hist = m.1.hist ++ [ad] ∧ ad.int0 .jobStatus = statusCompleted

variable {m : Queue E × List Event} {k : JobKey} {ad : Ad E}

theorem exitDecision_ends (cfg : SchedConfig E) (now : ℤ) {Q : Queue E × List Event → Policy.Decision → Prop}
    (hget : m.1.coll.get k = some ad)
    (h : Q m (Policy.analyze (ad.setInt .currentTime now) .periodicThenExit cfg.sysPolicy statusRunning)) :
    Ends coreExec Q (exitDecision cfg k now) m := by
  intro r m' hx
  obtain ⟨rfl, rfl⟩ := coreExec_get hx
  rw [hget]
  exact h

theorem complete_ends {Q : Queue E × List Event → Unit → Prop} (hget : m.1.coll.get k = some ad)
    (h : ∀ now, Q ({ m.1 with hist := m.1.hist ++ [(ad.setInt .jobStatus statusCompleted).setInt .completionDate now]
                              coll := m.1.coll.delete k }, m.2) ()) : Ends coreExec Q (Queue.complete k) m := by
  intro r m' hx
  obtain ⟨rfl, rfl⟩ := coreExec_get hx
  rw [hget]
  intro now m₁ hclock r m₂ happend r' m₃ hflush r'' m₄ hdelete
  obtain rfl := coreExec_clock hclock
  obtain rfl := coreExec_append happend
  obtain rfl := coreExec_flush hflush
  obtain rfl := coreExec_delete hdelete
  exact h now

theorem int0_put_self (s : Store E) (k : JobKey) {ad : Ad E} {i : ℤ} (h : ad .jobStatus = some (lit (.int i))) :
    ∃ ad', (s.put k ad).get k = some ad' ∧ ad'.int0 .jobStatus = i := by
  exact ⟨_, Store.get_put_self s k ad, Ad.int0_lit (by simp [h])⟩

/-- nothing is archived, and the job is in the live queue -/
def Stays (k : JobKey) (m m' : Queue E × List Event) : Prop := m'.1.hist = m.1.hist ∧ (m'.1.coll.get k).isSome = true

/-- **A delivered result.** The core reads the clock, settles the job as its policy says then, and archives it only to
complete it. -/
theorem exitJob_ends (cfg : SchedConfig E) (res : RunResult) (hget : m.1.coll.get k = some ad)
    (hroom : m.2.length < eventCap) :
    ∃ f, exitJob cfg k res = .call .clock f ∧ ∀ now,
      Ends coreExec (fun m' _ => ExitHandled k (onExitDecision cfg m.1.coll k res now ad) m m' ∧
        ((onExitDecision cfg m.1.coll k res now ad).action ∈ [.hold, .requeue, .remove] → Stays k m m')) (f now) m := by
  refine ⟨_, rfl, fun now => ends_bind.2 (ends_bind.2 (modify_ends hget ?_))⟩
  -- the policy reads back the ad with the exit recorded
  have hback := Store.get_put_self m.1.coll k (exitedAd res now ad)
  refine ends_bind.2 (exitDecision_ends cfg now hback ?_)
  unfold onExitDecision
  generalize Policy.analyze (((exitedAd res now ad).chainTo (m.1.coll.parentAd k)).setInt .currentTime now)
    .periodicThenExit cfg.sysPolicy statusRunning = d
  cases haction : d.action with
  | hold | requeue =>
    refine ends_bind.2 (modify_ends hback (logJob_ends cfg _ fun _ => ⟨?_, fun _ => ⟨rfl, ?_⟩⟩))
    · simp only [ExitHandled, haction]
      exact int0_put_self _ k rfl
    · rw [Store.get_put_self]
      rfl
  | remove =>
    intro r m' hx
    obtain rfl := coreExec_submit hx hroom
    refine ⟨?_, fun _ => ⟨rfl, ?_⟩⟩
    · simp only [ExitHandled, haction]
    · rw [hback]
      rfl
  | _ =>
    refine ends_bind.2 (logJob_ends cfg _ fun _ => ends_bind.2 (complete_ends hback fun now' => ⟨?_, fun hkept => ?_⟩))
    · simp only [ExitHandled, haction]
      exact ⟨Store.get_eq_none.2 ((Store.lookup_delete _ _ _).trans (if_pos rfl)), _, rfl, Ad.int0_lit rfl⟩
    · simp at hkept

end Sched

end

/-! ## What the shadow reports -/

/-- an exit with a result does not bear the mark of a detached shadow -/
def Event.genuine : Event → Bool
  | .evExited _ (some _) err => err ≠ some .detached
  | _ => true

/-- the shadow answers as `afterServe` does -/
def shadowProtocol (E : Type) : Prog.Protocol (Cmd.Resp (E := E)) Unit where
  allowed := fun _ c =>
    match c with
    | .submit ev => ev.genuine = true
    | _ => True
  expects := fun _ c =>
    match c with
    | .serve => fun r : ServeOutcome => ∀ res err, r = .exited (some res) err → err ≠ some .detached
    | .reattach => fun r : ReattachOutcome => ∀ res err, r = .exited (some res) err → err ≠ some .detached
    | _ => fun _ => True
  next := fun _ _ _ => ()

abbrev Genuine {α : Type} (p : Go E α) : Prop := Prog.wp (shadowProtocol E) (fun _ _ => True) p ()

theorem runJob_genuine (m : Match) : Genuine (runJob m : Go E (ℤ × List (ULog E))) := by
  refine ⟨trivial, fun r _ => ?_⟩
  cases r with
  | failed | panicked => exact ⟨rfl, fun _ _ => trivial⟩
  | activated =>
    refine ⟨rfl, fun _ _ => ⟨trivial, fun r hr => ?_⟩⟩
    cases r with
    | failed | panicked => exact ⟨rfl, fun _ _ => trivial⟩
    | exited res err =>
      refine ⟨?_, fun _ _ => trivial⟩
      cases res with
      | none => rfl
      | some res => exact decide_eq_true (hr res err rfl)

variable [ClassAdLib E]

theorem reconnectJob_genuine (cfg : SchedConfig E) (k : JobKey) (claimID : String) (job : Ad E) :
    Genuine (reconnectJob cfg k claimID job) := by
  refine ⟨trivial, fun r hr => ?_⟩
  cases r with
  | failed | panicked => exact ⟨rfl, fun _ _ => trivial⟩
  | exited res err =>
    refine ⟨?_, fun _ _ => trivial⟩
    cases res with
    | none => rfl
    | some res => exact decide_eq_true (hr res err rfl)

theorem applyAction_genuine (q : Queue E) (hook : Bool) (k : JobKey) (req : ActionRequest) :
    Genuine (q.applyAction hook k req) := by
  refine (actOnJob_quiet q hook k req true).wp (fun _ c hc => ?_) (Prog.results_true _) ()
  cases c with
  | submit ev => exact absurd rfl (hc ev)
  | _ => trivial

theorem applyPolicy_genuine (cfg : SchedConfig E) (q : Queue E) (k : JobKey) (req : ActionRequest) :
    Genuine (World.applyPolicy cfg q k req) :=
  Prog.wp_bind.2 (Prog.wp_mono (fun _ _ _ => ⟨rfl, fun _ _ => trivial⟩) (applyAction_genuine q cfg.hook k req))

theorem isRun_genuine {cfg : SchedConfig E} {k : JobKey} {p : Go E (ℤ × List (ULog E))} (h : Sched.IsRun cfg k p) :
    Genuine p := by
  rcases h with ⟨m, -, rfl⟩ | ⟨claimID, job, rfl⟩
  · exact runJob_genuine m
  · exact reconnectJob_genuine cfg k claimID job

/-! ## Marks of a drain -/

/-- a run that is not vacated is detached exactly in a drain -/
def Core.Aligned (core : Core) : Prop :=
  ∀ k ri, core.running.lookup k = some ri → ri.vacated = false → ri.detached = core.draining

namespace Sched

theorem reap_aligned {core : Core} (h : core.Aligned) (k : JobKey) : (reap core k).1.Aligned := by
  have hdraining : (reap core k).1.draining = core.draining := by
    simp only [reap, Core.maybeFinishDrain, Core.drop]
    split_ifs <;> split <;> rfl
  intro k' ri hl hv
  rw [hdraining]
  exact h k' ri (lookup_reap hl) hv

theorem mapRuns_aligned {core : Core} {f : JobKey → RunInfo → RunInfo}
    (h : ∀ k ri, core.running.lookup k = some ri → (f k ri).vacated = false → (f k ri).detached = core.draining) :
    (core.mapRuns f).Aligned := by
  intro k ri hl hv
  rw [lookup_mapRuns] at hl
  obtain ⟨ri₀, hl₀, rfl⟩ := Option.map_eq_some_iff.1 hl
  exact h k ri₀ hl₀ hv

theorem handle_aligned {cfg : SchedConfig E} (hcfg : cfg.reconnectDisabled = false) {core : Core} (h : core.Aligned)
    (ev : Event) : (handle cfg core ev).1.Aligned := by
  cases ev with
  | evExited k | evFailed k | evReconnectFailed k =>
    exact reap_aligned h k
  | evMatch =>
    simp only [handle, handleMatch]
    split_ifs <;> exact h
  | evStarted =>
    refine mapRuns_aligned fun k' ri hl hv => ?_
    split_ifs at hv ⊢ <;> exact h k' ri hl hv
  | evTeardown =>
    simp only [handle, handleTeardown]
    split_ifs
    · refine mapRuns_aligned fun k' ri hl hv => ?_
      split_ifs at hv ⊢
      · cases hv
      · exact h k' ri hl hv
    · exact h
  | evDrain =>
    simp only [handle, handleDrain, hcfg, Bool.false_eq_true, if_false]
    by_cases hempty : core.running.keys = []
    · rw [if_pos hempty]
      intro k ri hl _
      have hin : k ∈ core.running.keys := (KeyMap.mem_iff_lookup _ _).2 ⟨ri, hl⟩
      rw [hempty] at hin
      cases hin
    · rw [if_neg hempty]
      refine mapRuns_aligned fun k ri hl hv => ?_
      split_ifs at hv ⊢ with hmark
      · simpa [hv] using hmark
      · rfl
  | evPolicyDone => exact h
  | evReschedule | evRecover | evPolicyRemove | evPolicyHold | evPolicyRelease =>
    exact h

end Sched

/-! ## The invariant -/

namespace World

/-- the Detach flag of the run of `k` -/
def detachFlag (w : World E) (k : JobKey) : Bool := (w.core.running.lookup k).any fun ri => ri.detached

/-- a run that ends answers as `afterServe` does with the flag as it is -/
def ShadowAnswers (w : World E) : Step → Bool
  | .thread i ch =>
    match w.threads.lookup i with
    | some ⟨job, _, .call .serve _⟩ =>
      match ch.serve with
      | .exited res err => Shadow.answers (w.detachFlag job) res err
      | _ => true
    | some ⟨job, _, .call .reattach _⟩ =>
      match ch.reattach with
      | .exited res err => Shadow.answers (w.detachFlag job) res err
      | _ => true
    | _ => true
  | _ => true

structure Exits (cfg : SchedConfig E) (w : World E) : Prop where
  cap : w.events.length ≤ eventCap
  events : ∀ ev ∈ w.events, ev.genuine = true
  threads : ∀ i th, w.threads.lookup i = some th → Genuine th.prog
  busy : ∀ p, w.busy = some p → Prog.Calls Meek p ∧ Prog.Results (Sched.StartsRuns cfg) p
  marks : w.core.Aligned
  starts : w.NewRuns

variable {cfg : SchedConfig E} {w : World E}

omit [ClassAdLib E] in
/-- the channel after a submit -/
theorem submit_genuine {ev : Event} (hcap : w.events.length ≤ eventCap) (hevents : ∀ ev ∈ w.events, ev.genuine = true)
    (hev : ev.genuine = true) :
    (w.submit ev).events.length ≤ eventCap ∧ ∀ ev' ∈ (w.submit ev).events, ev'.genuine = true := by
  unfold submit
  split_ifs with hroom
  · refine ⟨by simpa using hroom, fun ev' hin => ?_⟩
    rcases mem_append.1 hin with hin | hin
    · exact hevents ev' hin
    · rw [mem_singleton.1 hin]
      exact hev
  · exact ⟨hcap, hevents⟩

/-- the channel after a command -/
theorem exec_genuine {t : ℕ} {ch : Choice} {c : Cmd E} {r : c.Resp} {w₁ : World E} (h : Exits cfg w)
    (hx : w.exec t ch c = some (r, w₁)) (hc : ∀ ev, c = .submit ev → ev.genuine = true) :
    w₁.events.length ≤ eventCap ∧ ∀ ev ∈ w₁.events, ev.genuine = true := by
  have hev := exec_events hx
  rw [hev]
  cases c with
  | submit ev => exact submit_genuine h.cap h.events (hc ev rfl)
  | teardown => exact submit_genuine h.cap h.events rfl
  | _ => exact ⟨h.cap, h.events⟩

theorem Exits.spawn (h : Exits cfg w) {th : Thread E} (hth : Genuine th.prog) : Exits cfg (w.spawn th) := by
  refine ⟨h.cap, h.events, fun i th' hl => ?_, h.busy, h.marks, h.starts⟩
  simp only [World.spawn, KeyMap.lookup_insert_ite] at hl
  split_ifs at hl
  · cases hl
    exact hth
  · exact h.threads i th' hl

/-- the core goes on -/
theorem Exits.resume (h : Exits cfg w) {p : Go E (Finish E)} (hp : Prog.Calls Meek p)
    (hruns : Prog.Results (Sched.StartsRuns cfg) p) (hnew : Prog.Results (Sched.StartsNew w.core) p) :
    Exits cfg (w.resume cfg p) := by
  cases p with
  | call =>
    exact ⟨h.cap, h.events, h.threads, fun p hb => Option.some.inj hb ▸ ⟨hp, hruns⟩, h.marks,
      fun p hb => Option.some.inj hb ▸ hnew⟩
  | ret fin =>
    let I : World E → Prop := fun w' => Exits cfg w' ∧ w'.core.draining = w.core.draining ∧ w'.busy = none
    have hdone : I (w.finish cfg fin) := by
      refine finish_inv (I := I) (J := I) cfg ⟨⟨h.cap, h.events, h.threads, fun p hb => (nomatch hb), ?_,
        fun p hb => (nomatch hb)⟩, rfl, rfl⟩ ?_ ?_ ?_
      · refine mapRuns_aligned fun k ri hl hv => ?_
        split_ifs at hv ⊢
        · cases hv
        · exact h.marks k ri hl hv
      · rintro w' r hr ⟨hw', hd, hb⟩
        have hsame : Exits cfg { w' with core := w'.core.add r.key r.info } := by
          refine ⟨hw'.cap, hw'.events, hw'.threads, fun p hp => ?_, fun k ri hl hv => ?_, fun p hp => ?_⟩
          · rw [hb] at hp
            cases hp
          · simp only [Core.add, KeyMap.lookup_insert_ite] at hl
            split_ifs at hl
            · cases hl
              exact (hnew r hr).detached.trans ((hnew r hr).draining.symm.trans hd.symm)
            · exact hw'.marks k ri hl hv
          · rw [hb] at hp
            cases hp
        exact ⟨hsame.spawn (isRun_genuine (hruns r hr)), hd, hb⟩
      · rintro w' k req - ⟨hw', hd, hb⟩
        have hsame : Exits cfg { w' with core := { w'.core with policyPending := k :: w'.core.policyPending } } := by
          refine ⟨hw'.cap, hw'.events, hw'.threads, fun p hp => ?_, hw'.marks, fun p hp => ?_⟩
          · rw [hb] at hp
            cases hp
          · rw [hb] at hp
            cases hp
        exact ⟨hsame.spawn (applyPolicy_genuine cfg w'.q k req), hd, hb⟩
      · rintro w' ⟨hw', hd, hb⟩
        exact ⟨⟨hw'.cap, hw'.events, hw'.threads, hw'.busy, hw'.marks, hw'.starts⟩, hd, hb⟩
    exact hdone.1

/-- **One step.** -/
theorem Exits.step (hcfg : cfg.reconnectDisabled = false) (h : Exits cfg w) {s : Step} (hs : w.ShadowAnswers s = true) :
    Exits cfg (step cfg w s) := by
  have hstarts := step_newRuns cfg s h.starts
  have hmove := step_move cfg w s
  generalize World.step cfg w s = w' at hmove hstarts
  cases hmove with
  | idle => exact h
  | tool k req => exact h.spawn (applyAction_genuine w.q cfg.hook k req)
  | call _ ev n os hev =>
    have hgen : ev.genuine = true := by
      cases s <;> simp only [callEvent, reduceCtorEq, Option.some.injEq] at hev <;> subst hev <;> rfl
    obtain ⟨hc, hth, hb, -, -⟩ := submit_frame w ev
    obtain ⟨hcap, hevents⟩ := submit_genuine h.cap h.events hgen
    exact ⟨hcap, hevents,
      by simp only [hth]; exact h.threads, by simp only [hb]; exact h.busy, by simp only [hc]; exact h.marks, hstarts⟩
  | take ev rest hb he =>
    have hcap := h.cap
    rw [he, length_cons] at hcap
    have htook : Exits cfg (took cfg w ev rest) := by
      refine ⟨Nat.le_of_succ_le hcap, fun ev' hin => h.events ev' (he ▸ mem_cons_of_mem ev hin), h.threads, h.busy,
        handle_aligned hcfg h.marks ev, fun p hp => ?_⟩
      have hnone : (none : Option (Go E (Finish E))) = some p := hb ▸ hp
      cases hnone
    exact htook.resume (handle_meek cfg w.core ev) (handle_runs cfg w.core ev)
      (handle_starts cfg w.core ev)
  | sweep =>
    exact Exits.resume (w := w) h (sweepExpired_meek cfg w.core) (sweepExpired_runs cfg w.core)
      ((sweepExpired_finish cfg w.core).mono fun fin hfin => startsNew_nil hfin.1)
  | core ch c f r w₁ hb hx =>
    obtain ⟨hc, hth, -, hbusy, -⟩ := exec_frame hx
    obtain ⟨hmeek, hruns⟩ := h.busy _ hb
    obtain ⟨hcap, hevents⟩ := exec_genuine h hx fun ev hev => by
      subst hev
      obtain ⟨_, _, rfl⟩ := hmeek.1
      rfl
    have h₁ : Exits cfg w₁ :=
      ⟨hcap, hevents, hth ▸ h.threads, hbusy ▸ h.busy, hc ▸ h.marks, fun p hp => hc ▸ h.starts p (hbusy ▸ hp)⟩
    exact h₁.resume (hmeek.2 r) (hruns r) (hc ▸ h.starts _ hb r)
  | thread i ch job role c f r w₁ ht hx =>
    obtain ⟨hc, hth, -, hbusy, -⟩ := exec_frame hx
    obtain ⟨hc', hb', -, -⟩ := resumeThread_frame w₁ i ⟨job, role, .call c f⟩ (f r)
    have hgen : Genuine (.call c f) := h.threads i _ ht
    obtain ⟨hcap, hevents⟩ := exec_genuine h hx fun ev hev => by
      subst hev
      exact hgen.1
    -- the answer of the shadow is one `afterServe` can give
    have hanswer : (shadowProtocol E).expects () c r := by
      cases c with
      | serve | reattach =>
        cases hx
        intro res err hr
        simp only [ShadowAnswers, ht, hr] at hs
        exact of_decide_eq_true hs
      | _ => trivial
    have hnext : Genuine (f r) := hgen.2 r hanswer
    refine ⟨?_, ?_, fun i' th' hl' => ?_, by rw [hb', hbusy]; exact h.busy, by rw [hc', hc]; exact h.marks, hstarts⟩
    · cases hfr : f r <;> exact hcap
    · cases hfr : f r <;> exact hevents
    · cases hfr : f r with
      | ret =>
        rw [hfr] at hl'
        exact h.threads i' th' (hth ▸ KeyMap.lookup_of_erase hl')
      | call =>
        rw [hfr] at hl' hnext
        simp only [resumeThread, KeyMap.lookup_insert_ite] at hl'
        split_ifs at hl'
        · cases hl'
          exact hnext
        · exact h.threads i' th' (hth ▸ hl')

/-! ## The exit -/

/-- the core comes to the end of any event -/
theorem handles_exists (cfg : SchedConfig E) (hb : w.busy = none) {ev : Event} {rest : List Event}
    (he : w.events = ev :: rest) (ch : Choice) :
    ∃ n, (run cfg w (.take :: (List.replicate n ch).map .core)).busy = none := by
  have hwait : Prog.Calls (· ≠ .await) (handle cfg w.core ev).2 :=
    (handle_meek cfg w.core _).mono fun c hc hawait => by
      subst hawait
      exact hc
  obtain ⟨n, hn⟩ := run_exists cfg ch hwait (took cfg w ev rest)
  refine ⟨n, ?_⟩
  simp only [run, foldl_cons] at hn ⊢
  rwa [take_eq cfg hb he]

/-- the core with an exit that is its own to settle; the clock it settles it by is read first -/
theorem handles_exit (cfg : SchedConfig E) (hb : w.busy = none) {k : JobKey} {res : RunResult} {err : Option RunErr}
    {rest : List Event} (he : w.events = .evExited k (some res) err :: rest) (hkept : Sched.abandoned w.core k = false)
    (herr : err ≠ some .detached) (hroom : rest.length < eventCap) {ad : Ad E} (hget : w.q.coll.get k = some ad)
    {chs : List Choice} (hok : ∀ ch ∈ chs, ch.ok = true) (hidle : (run cfg w (.take :: chs.map .core)).busy = none) :
    ∃ ch ∈ chs,
      Sched.ExitHandled k (Sched.onExitDecision cfg w.q.coll k res ch.now ad) (w.q, rest)
        (run cfg w (.take :: chs.map .core)).board ∧
      ((Sched.onExitDecision cfg w.q.coll k res ch.now ad).action ∈ [.hold, .requeue, .remove] →
        Sched.Stays k (w.q, rest) (run cfg w (.take :: chs.map .core)).board) := by
  obtain ⟨f, hexit, hends⟩ := exitJob_ends (m := (w.q, rest)) cfg res hget hroom
  have hprog : (handle cfg w.core (.evExited k (some res) err)).2 = (exitJob cfg k res).bind fun logged =>
      .ret { close := (reap w.core k).2, ulog := logged } := by
    refine if_neg fun h => ?_
    rcases h with habandoned | hdetached
    · rw [hkept] at habandoned
      cases habandoned
    · exact herr hdetached
  simp only [run, foldl_cons] at hidle ⊢
  rw [take_eq cfg hb he, hprog, hexit] at hidle ⊢
  cases chs with
  | nil => cases hidle
  | cons ch =>
    have hafter : Prog.Ends coreExec (fun m' _ =>
        Sched.ExitHandled k (onExitDecision cfg w.q.coll k res ch.now ad) (w.q, rest) m' ∧
          ((onExitDecision cfg w.q.coll k res ch.now ad).action ∈ [.hold, .requeue, .remove] →
            Sched.Stays k (w.q, rest) m'))
        ((f ch.now).bind fun logged => .ret ({ close := (reap w.core k).2, ulog := logged } : Finish E))
        (took cfg w (.evExited k (some res) err) rest).board := Prog.ends_bind.2 (hends ch.now)
    obtain ⟨_, hfin⟩ := run_ends cfg (fun ch' hin => hok ch' (mem_cons_of_mem ch hin)) hafter hidle
    exact ⟨ch, mem_cons_self, hfin⟩

end World

end

namespace World

/-- the job has run and its exit is in the channel -/
def exitQueued : List Step := started ++ List.replicate 2 (.thread 1 smooth)

end World

end AccessPoint
