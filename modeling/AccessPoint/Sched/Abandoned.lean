/-
Abandoned runs (internal/sched/sched.go, `handleDrain` with reconnect disabled, `sweepExpired`, `requeueToIdle`,
`handleStarted`, `handleExited`, `handleFailed`).

A drain with reconnect disabled and an expired lease abandon a run: its entry is vacated, its job goes back to Idle, and
its terminal event will write nothing. The job then stays off Running as long as no `evStarted` of the run is handled
after the vacate: `handleStarted` does not look at the entry's mark and makes the job Running again, for good.

- `requeueProtocol`: what a handler knows of the job while it requeues; `sweepExpired_settles`, `handleDrain_settles`.
- `Phase`: a run that is out of the registry, live, being vacated, or gone; `Phase.step`, `Leaving.step`, `Gone.step`.
- `abandoned_run_not_running`: the job of an abandoned run is not Running when the run is reaped, nor when the drain
  ends.
-/
import AccessPoint.Sched.Archive
import AccessPoint.Sched.Conduct

namespace AccessPoint

open ClassAdLib Sched KeyMap World Store

section

variable {E : Type}

/-- the command replaces or deletes the ad of `k` -/
def Cmd.touches (k : JobKey) : Cmd E → Bool
  | .put k' _ => k' = k
  | .delete k' => k' = k
  | _ => false

/-- a teardown of the run of `k` -/
def Event.tearsDown (k : JobKey) : Event → Bool
  | .evTeardown k' _ => k' = k
  | _ => false

/-- a program that may write every job but `k` -/
theorem Tidy.calls {α : Type} {k : JobKey} {p : Go E α} (h : Tidy (· ≠ k) p) :
    Prog.Calls (fun c => c.touches k = false) p := by
  have hwp := h .none Copy.settled_none
  clear h
  generalize Copy.none = s at hwp
  induction p generalizing s with
  | ret => trivial
  | call c f ih =>
    refine ⟨?_, fun r => ih r _ (hwp.2 r trivial)⟩
    have hall := hwp.1
    cases c with
    | put | delete => exact decide_eq_false hall.1
    | _ => rfl

variable {ch : Choice} {c : Cmd E} {r : c.Resp}

/-- a command that leaves an ad and its cluster ad alone leaves the flattened ad alone -/
theorem World.exec_get {w w' : World E} {t : ℕ} (h : w.exec t ch c = some (r, w'))
    {k : JobKey} (hk : c.touches k = false) (hp : (parentKeyFor k).all (fun p => !c.touches p) = true) :
    w'.q.coll.get k = w.q.coll.get k := by
  have hparent : 0 ≤ k.proc → c.touches (clusterKey k.cluster) = false := by
    intro h0
    simpa [parentKeyFor_proc h0] using hp
  cases c with
  | put =>
    simp only [exec] at h
    split_ifs at h <;> cases h
    · refine get_congr ?_ fun h0 => ?_
      · exact (lookup_put _ _ _ _).trans (if_neg fun he => of_decide_eq_false hk he.symm)
      · exact (lookup_put _ _ _ _).trans (if_neg fun he => of_decide_eq_false (hparent h0) he.symm)
    · rfl
  | delete =>
    cases h
    refine get_congr ?_ fun h0 => ?_
    · exact (lookup_delete _ _ _).trans (if_neg fun he => of_decide_eq_false hk he.symm)
    · exact (lookup_delete _ _ _).trans (if_neg fun he => of_decide_eq_false (hparent h0) he.symm)
  | append | await =>
    simp only [exec] at h
    split_ifs at h <;> cases h <;> rfl
  | teardown | submit =>
    simp only [exec, submit] at h
    split_ifs at h <;> cases h <;> rfl
  | _ => cases h; rfl

variable [ClassAdLib E]

/-- the job is in the queue and Running -/
def Store.isRunning (s : Store E) (k : JobKey) : Bool := (s.get k).any fun ad => ad.int0 .jobStatus = statusRunning

theorem Store.isRunning_put_idle (s : Store E) (k : JobKey) {ad : Ad E}
    (h : ad .jobStatus = some (lit (.int statusIdle))) : (s.put k ad).isRunning k = false := by
  have hget : (s.put k ad).get k = some (ad.chainTo ((s.put k ad).parentAd k)) :=
    get_of_lookup ((lookup_put s k k ad).trans (if_pos rfl))
  have hstatus : (ad.chainTo ((s.put k ad).parentAd k)).int0 .jobStatus = statusIdle := Ad.int0_lit (by simp [h])
  rw [isRunning, hget, Option.any_some, hstatus]
  decide

/-! ## Requeueing -/

/-- the automaton remembers whether the job is known not to be Running; the writes of `k` succeed -/
def requeueProtocol (E : Type) [ClassAdLib E] (k : JobKey) : Prog.Protocol (Cmd.Resp (E := E)) Prop where
  allowed := fun _ _ => True
  expects := fun _ c =>
    match c with
    | .put k' _ => fun ok : Bool => k' = k → ok = true
    | _ => fun _ => True
  next := fun known c =>
    match c with
    | .get k' => fun r : Option (Ad E) =>
      known ∨ k' = k ∧ r.any (fun ad => ad.int0 .jobStatus = statusRunning) = false
    | .put k' ad => fun _ => k' ≠ k ∧ known ∨ k' = k ∧ ad .jobStatus = some (lit (.int statusIdle))
    | _ => fun _ => known

namespace Sched

open Prog

theorem requeuedAd_idle (now : ℤ) (ad : Ad E) : requeuedAd now ad .jobStatus = some (lit (.int statusIdle)) := rfl

variable {known : Prop}

/-- after `requeueToIdle` the job is not Running -/
theorem requeueToIdle_settles {k k' : JobKey} (h : known ∨ k' = k) :
    wp (requeueProtocol E k) (fun known' _ => known') (requeueToIdle k' : Go E Unit) known := by
  refine ⟨trivial, fun r _ => ?_⟩
  -- what a read that finds the job not Running, or gone, settles
  have hread : ∀ (K : Prop) (r : Option (Ad E)), (K ∨ k' = k) →
      (K ∨ k' = k ∧ r.any (fun ad => ad.int0 .jobStatus = statusRunning) = false) ∨
        k' = k ∧ r.any (fun ad => ad.int0 .jobStatus = statusRunning) = true := by
    intro K r hK
    rcases hK with hK | hk
    · exact .inl (.inl hK)
    · cases hr : r.any fun ad => ad.int0 .jobStatus = statusRunning with
      | false => exact .inl (.inr ⟨hk, rfl⟩)
      | true => exact .inr ⟨hk, rfl⟩
  cases r with
  | none => exact (hread known none h).resolve_right (by simp)
  | some ad =>
    refine wp_ite (fun hs => ?_) fun hs => ⟨trivial, fun now _ => ⟨trivial, fun r _ => ?_⟩⟩
    · refine (hread known (some ad) h).resolve_right fun hr => hs ?_
      exact of_decide_eq_true hr.2
    · have hknown : (known ∨ k' = k ∧ (some ad).any (fun ad => ad.int0 .jobStatus = statusRunning) = false) ∨ k' = k :=
        h.imp_left .inl
      cases r with
      | none => exact (hread _ none hknown).resolve_right (by simp)
      | some ad' =>
        refine ⟨trivial, fun ok _ => ?_⟩
        by_cases hk : k' = k
        · exact .inr ⟨hk, requeuedAd_idle now ad'⟩
        · exact .inl ⟨hk, .inl (hknown.resolve_right hk)⟩

theorem requeueAll_settles {k : JobKey} {ks : List JobKey} (h : known ∨ k ∈ ks) :
    wp (requeueProtocol E k) (fun known' _ => known') (requeueAll ks : Go E Unit) known := by
  induction ks generalizing known with
  | nil => exact h.resolve_right List.not_mem_nil
  | cons k' ks ih =>
    by_cases hk : known ∨ k' = k
    · exact wp_bind.2 (wp_mono (fun _ _ hknown => ih (.inl hknown)) (requeueToIdle_settles hk))
    · have hin : k ∈ ks := by
        rcases h with h | h
        · exact absurd (.inl h) hk
        · exact (List.mem_cons.1 h).resolve_left fun he => hk (.inr he.symm)
      exact wp_bind.2 (wp_mono (fun _ _ _ => ih (.inr hin)) ((results_true _).wp (fun _ _ => trivial) known))

variable (cfg : SchedConfig E)

theorem expireAll_settles (core : Core) {k : JobKey} (recs : List String) {gone : List JobKey} (h : k ∈ gone → known) :
    wp (requeueProtocol E k) (fun known' gone' => k ∈ gone' → known') (expireAll cfg core gone recs) known := by
  induction recs generalizing gone known with
  | nil => exact h
  | cons rec recs ih =>
    unfold expireAll
    cases expiredRun cfg core gone rec with
    | none => exact ih h
    | some k' =>
      by_cases hk : known ∨ k' = k
      · exact wp_bind.2 (wp_mono (fun _ _ hknown => ih fun _ => hknown) (requeueToIdle_settles hk))
      · have hnot : k ∉ k' :: gone := fun hin => by
          rcases List.mem_cons.1 hin with he | hin
          · exact hk (.inr he.symm)
          · exact hk (.inl (h hin))
        exact wp_bind.2 (wp_mono (fun _ _ _ => ih fun hin =>
          absurd hin hnot) ((results_true _).wp (fun _ _ => trivial) known))

/-- a sweep vacates only runs whose job it has settled -/
theorem sweepExpired_settles (core : Core) (k : JobKey) (known : Prop) :
    wp (requeueProtocol E k) (fun known' fin => k ∈ fin.vacate → known') (sweepExpired cfg core).2 known := by
  have hrenew : ∀ now, wp (requeueProtocol E k) (fun _ _ => True)
      (renewAll now (runsWhere core fun ri => !(ri.vacated || ri.detached)) : Go E Unit) known :=
    fun now => (results_true _).wp (fun _ _ => trivial) known
  refine wp_bind.2 ⟨trivial, fun now _ => wp_bind.2 (wp_mono (fun known' _ _ => ?_) (hrenew now))⟩
  refine wp_bind.2 ⟨trivial, fun recs _ => wp_bind.2 ?_⟩
  exact expireAll_settles cfg core recs fun hin => absurd hin List.not_mem_nil

/-- a handler leaves the vacating to the sweep -/
theorem handle_vacates (core : Core) (ev : Event) :
    Results (fun fin : Finish E => fin.vacate = []) (handle cfg core ev).2 := by
  cases ev with
  | evMatch =>
    simp only [handle, handleMatch]
    split_ifs
    · exact rfl
    · refine results_bind _ fun status => ?_
      split_ifs
      · exact rfl
      · refine results_bind _ fun job => ?_
        cases job <;> exact rfl
  | evStarted =>
    refine results_bind _ fun now => results_bind _ fun ok => ?_
    split_ifs
    · exact rfl
    · exact results_bind _ fun _ => rfl
  | evExited k res =>
    simp only [handle, handleExited]
    split_ifs
    · exact rfl
    · cases res <;> exact results_bind _ fun _ => rfl
  | evFailed =>
    simp only [handle, handleFailed]
    split_ifs
    · exact rfl
    · exact results_bind _ fun _ => rfl
  | evTeardown =>
    simp only [handle, handleTeardown]
    split_ifs <;> exact rfl
  | evDrain =>
    simp only [handle, handleDrain]
    split_ifs
    · exact rfl
    · exact results_bind _ fun _ => rfl
    · exact rfl
  | evReconnectFailed =>
    simp only [handle, handleReconnectFailed]
    split_ifs
    · exact rfl
    · exact results_bind _ fun _ => results_bind _ fun _ => rfl
  | evRecover =>
    simp only [handle, handleRecover]
    split_ifs
    · exact rfl
    · exact results_bind _ fun _ => results_bind _ fun _ => results_bind _ fun _ => rfl
  | evPolicyRemove | evPolicyHold | evPolicyRelease =>
    simp only [handle, handlePolicyAction]
    split_ifs
    · exact rfl
    · refine results_bind _ fun status => ?_
      split_ifs <;> exact rfl
  | evReschedule | evPolicyDone => exact rfl

/-! ## Handlers and a vacated run -/

/-- a run starts with no mark, no waiter and no entry yet, and not in a drain; a reconnect reports no start -/
structure IsNew (core : Core) (r : NewRun E) : Prop where
  vacated : r.info.vacated = false
  detached : r.info.detached = false
  key : r.key ∉ core.running
  draining : core.draining = false
  waiters : r.info.waiters = []
  reconnect : r.info.reconnect = true → StartsOnce r.key true r.prog

def StartsNew (core : Core) (fin : Finish E) : Prop := ∀ r ∈ fin.runs, IsNew core r

variable {core : Core}

omit [ClassAdLib E] in
theorem startsNew_nil {fin : Finish E} (h : fin.runs = []) : StartsNew core fin := by
  intro r hr
  rw [h] at hr
  cases hr

theorem handle_startsNew (core : Core) (ev : Event) : Results (StartsNew core) (handle cfg core ev).2 := by
  refine (handle_begun cfg core ev).mono fun fin hfin r hr => ?_
  cases hfin r hr with
  | matched m hproc hclaim hout hd => exact ⟨rfl, rfl, hout, hd, rfl, fun hr => by cases hr⟩
  | recovered done ad r h hd =>
    obtain ⟨_, _, hinfo, hprog⟩ := h.run
    exact ⟨by rw [hinfo], by rw [hinfo], h.out, hd, by rw [hinfo], fun _ =>
      hprog ▸ reconnectJob_startsOnce cfg _ _ ad true⟩

/-- the same of the registry the handler works with -/
theorem handle_starts (core : Core) (ev : Event) :
    Results (StartsNew (handle cfg core ev).1) (handle cfg core ev).2 := by
  cases hev : ev.recovers with
  | true =>
    cases ev with
    | evRecover done => exact handle_startsNew cfg core (.evRecover done)
    | _ => cases hev
  | false =>
    refine ((handle_startsNew cfg core ev).and (handle_finish cfg core ev hev)).mono fun fin hfin => ?_
    cases hfin.2 with
    | closes hruns => exact startsNew_nil hruns
    | starts m r hm =>
      have hsame : (handle cfg core ev).1 = core := by
        subst hm
        simp only [handle, handleMatch]
        split_ifs <;> rfl
      rw [hsame]
      exact hfin.1

variable {ev : Event} {ri : RunInfo}

/-- the terminal event of a vacated run writes nothing -/
theorem handle_silent {k : JobKey} (hl : core.running.lookup k = some ri)
    (hv : ri.vacated = true) (hev : ev.terminalFor k = true) :
    (handle cfg core ev).2 = .ret { close := (reap core k).2 } := by
  have habandoned : abandoned core k = true := by simp [abandoned, hl, hv]
  cases ev with
  | evExited k' | evFailed k' =>
    obtain rfl : k' = k := of_decide_eq_true hev
    exact if_pos (.inl habandoned)
  | evReconnectFailed k' =>
    obtain rfl : k' = k := of_decide_eq_true hev
    exact if_pos habandoned
  | _ => cases hev

/-- vacated, or reaped in a drain -/
def Away (core : Core) (k : JobKey) : Prop :=
  (∃ ri, core.running.lookup k = some ri ∧ ri.vacated = true) ∨ k ∉ core.running ∧ core.draining = true

omit [ClassAdLib E] in
theorem Away.ne {k k' : JobKey} (h : Away core k) (hl : core.running.lookup k' = some ri) (hv : ri.vacated = false) :
    k' ≠ k := by
  rintro rfl
  rcases h with ⟨_, hl', hv'⟩ | ⟨hout, -⟩
  · rw [hl'] at hl
    rw [← Option.some.inj hl, hv'] at hv
    cases hv
  · exact hout ((mem_iff_lookup _ _).2 ⟨ri, hl⟩)

/-- only its own `evStarted` touches the job of such a run -/
theorem handle_spares {k : JobKey} (h : Away core k)
    (hstarted : ev.startedFor k = false) (hterm : ev.terminalFor k = true → k ∈ core.running) :
    Calls (fun c => c.touches k = false) (handle cfg core ev).2 := by
  by_cases hev : ev.terminalFor k = true
  · rcases h with ⟨ri, hl, hv⟩ | ⟨hout, -⟩
    · rw [handle_silent cfg hl hv hev]
      trivial
    · exact absurd (hterm hev) hout
  · cases ev with
    | evDrain =>
      simp only [handle, handleDrain]
      split_ifs
      · trivial
      · refine Tidy.calls (((tidy_parts cfg _).requeueAll fun k' hk' => ?_).bind fun _ => Tidy.ret _)
        obtain ⟨ri, hl, hv⟩ := mem_runsWhere.1 hk'
        exact h.ne hl (by simpa using hv)
      · trivial
    | evRecover =>
      simp only [handle, handleRecover]
      by_cases hd : core.draining = true
      · rw [if_pos hd]
        trivial
      · rw [if_neg hd]
        have hin : k ∈ core.running := by
          rcases h with ⟨ri, hl, -⟩ | ⟨-, hdraining⟩
          · exact (mem_iff_lookup _ _).2 ⟨ri, hl⟩
          · exact absurd hdraining hd
        refine Tidy.calls (Tidy.clock.bind fun now => Tidy.scan.bind fun ads =>
          ((tidy_parts cfg _).recoverLoop now fun ad _ hk' he => ?_).bind fun _ => Tidy.ret _)
        exact hk' (he ▸ hin)
    | evStarted =>
      refine Tidy.calls (handle_tidy cfg core _ fun k'' hw he => ?_)
      exact of_decide_eq_false hstarted (hw.symm.trans he)
    | evExited | evFailed | evReconnectFailed =>
      refine Tidy.calls (handle_tidy cfg core _ fun k'' hw he => ?_)
      exact hev (decide_eq_true (hw.symm.trans he))
    | _ => exact Tidy.calls (handle_tidy cfg core _ fun k'' hw => hw.elim)

theorem sweepExpired_spares {k : JobKey} (h : Away core k) :
    Calls (fun c => c.touches k = false) (sweepExpired cfg core).2 := by
  exact Tidy.calls (sweepExpired_tidy cfg fun k' ri hl hv => h.ne hl hv)

/-! ## The registry as an event is taken -/

/-- no handler ends a drain's refusal of new runs -/
theorem handle_draining (h : core.draining = true) (ev : Event) : (handle cfg core ev).1.draining = true := by
  have hreap : ∀ k, (reap core k).1.draining = true := by
    intro k
    simp only [reap, Core.maybeFinishDrain, Core.drop]
    split_ifs <;> split <;> exact h
  cases ev with
  | evExited k | evFailed k | evReconnectFailed k => exact hreap k
  | evMatch =>
    simp only [handle, handleMatch]
    split_ifs <;> exact h
  | evTeardown =>
    simp only [handle, handleTeardown]
    split_ifs <;> exact h
  | evDrain =>
    simp only [handle, handleDrain]
    split_ifs <;> rfl
  | evStarted | evReschedule | evRecover | evPolicyRemove | evPolicyHold | evPolicyRelease | evPolicyDone => exact h

theorem handle_away {k : JobKey} (h : Away core k)
    (hev : ev.terminalFor k = true → core.draining = true) : Away (handle cfg core ev).1 k := by
  rcases h with ⟨ri, hl, hv⟩ | ⟨hout, hd⟩
  · cases hterm : ev.terminalFor k with
    | true =>
      refine .inr ⟨fun hin => ?_, handle_draining cfg (hev hterm) ev⟩
      have hfalse := ((handle_registry cfg core ev).1 k hin).2
      rw [hterm] at hfalse
      cases hfalse
    | false =>
      have hin := handle_keeps cfg core ev ((mem_iff_lookup _ _).2 ⟨ri, hl⟩) hterm
      obtain ⟨ri', hl'⟩ := (mem_iff_lookup _ _).1 hin
      obtain ⟨_, hl₀, hremains⟩ := handle_entry cfg core ev hl'
      rw [hl] at hl₀
      exact .inl ⟨ri', hl', hremains.vacated (Option.some.inj hl₀ ▸ hv)⟩
  · exact .inr ⟨fun hin => hout ((handle_registry cfg core ev).1 k hin).1, handle_draining cfg hd ev⟩

/-- a live run stays so, unless it is torn down, drained, or over -/
theorem handle_live {k : JobKey} (hl : core.running.lookup k = some ri)
    (hv : ri.vacated = false) (hterm : ev.terminalFor k = false) (htear : ev.tearsDown k = false)
    (hdrain : cfg.reconnectDisabled = true → ∀ done, ev ≠ .evDrain done) :
    ∃ ri', (handle cfg core ev).1.running.lookup k = some ri' ∧ ri'.vacated = false := by
  have hin := handle_keeps cfg core ev ((mem_iff_lookup _ _).2 ⟨ri, hl⟩) hterm
  obtain ⟨_, hl'⟩ := (mem_iff_lookup _ _).1 hin
  obtain ⟨ri₀, hl₀, rfl⟩ := lookup_handle cfg core ev hl'
  obtain rfl : ri = ri₀ := Option.some.inj (hl.symm.trans hl₀)
  refine ⟨_, hl', ?_⟩
  cases ev with
  | evStarted =>
    simp only [entryAfter]
    split_ifs <;> exact hv
  | evTeardown =>
    simp only [entryAfter]
    rw [if_neg fun he => of_decide_eq_false htear he.symm]
    exact hv
  | evDrain done =>
    simp only [entryAfter]
    split_ifs with hdisabled
    · exact absurd rfl (hdrain hdisabled done)
    · exact hv
    · exact hv
  | _ => exact hv

/-- a drain with reconnect disabled vacates a live run and requeues its job -/
theorem handleDrain_settles {cfg : SchedConfig E} (hcfg : cfg.reconnectDisabled = true) {k : JobKey}
    (hl : core.running.lookup k = some ri) (hv : ri.vacated = false) (done : ℕ) (known : Prop) :
    (handle cfg core (.evDrain done)).1.running.lookup k = some (vacateRun ri) ∧
      wp (requeueProtocol E k) (fun known' fin => known' ∧ fin.runs = [] ∧ fin.close = [] ∧ fin.vacate = [])
        (handle cfg core (.evDrain done)).2 known := by
  have hne : core.running.keys ≠ [] := by
    intro hnil
    have hk : k ∈ core.running.keys := AList.mem_keys.2 ((mem_iff_lookup _ _).2 ⟨ri, hl⟩)
    rw [hnil] at hk
    cases hk
  simp only [handle, handleDrain, if_neg hne, if_pos hcfg]
  refine ⟨?_, wp_bind.2 (wp_mono (fun _ _ hknown => ⟨hknown, rfl, rfl, rfl⟩) (requeueAll_settles (.inr ?_)))⟩
  · rw [lookup_mapRuns]
    simp only [hl, Option.map_some]
  · exact mem_runsWhere.2 ⟨ri, hl, by simp [hv]⟩

end Sched

namespace World

/-! ## What a step must keep to -/

/-- the run of `k` is in the registry and not vacated -/
def isLive (w : World E) (k : JobKey) : Bool := (w.core.running.lookup k).any fun ri => !ri.vacated

def isVacated (w : World E) (k : JobKey) : Bool := (w.core.running.lookup k).any fun ri => ri.vacated

/-- the write of the step, if it is one, is done -/
def Step.ok : Step → Bool
  | .core ch => ch.ok
  | .thread _ ch => ch.ok
  | _ => true

/-- the core's writes of the job succeed, no other goroutine makes it Running, and none touches its cluster ad -/
def KeepsOff (k : JobKey) (w : World E) (s : Step) : Bool :=
  match w.command s with
  | some (_, c) =>
    (parentKeyFor k).all (fun p => !c.touches p) &&
      match s, c with
      | .core _, .put k' _ => k' ≠ k || s.ok
      | _, .put k' ad => k' ≠ k || !s.ok || !(w.q.coll.put k ad).isRunning k
      | _, _ => true
  | none => true

/-- `evStarted` of `k` is taken while its run is live, its terminal event while the run has an entry, and no action
tears the live run down -/
def InOrder (k : JobKey) (w : World E) (s : Step) : Bool :=
  match s, w.busy, w.events with
  | .take, none, ev :: _ =>
    (!ev.startedFor k || w.isLive k) && (!ev.terminalFor k || decide (k ∈ w.core.running)) &&
    (!ev.tearsDown k || !w.isLive k)
  | _, _, _ => true

def Heeds (k : JobKey) (w : World E) (s : Step) : Bool := KeepsOff k w s && InOrder k w s

variable {k : JobKey} {w w' : World E}

theorem exec_isRunning {t : ℕ} (h : w.exec t ch c = some (r, w'))
    (hp : (parentKeyFor k).all (fun p => !c.touches p) = true)
    (hput : ∀ ad, c = .put k ad → ch.ok = true → (w.q.coll.put k ad).isRunning k = false)
    (hidle : w.q.coll.isRunning k = false) : w'.q.coll.isRunning k = false := by
  cases htouch : c.touches k with
  | false =>
    rw [isRunning, exec_get h htouch hp]
    exact hidle
  | true =>
    cases c with
    | put k' ad =>
      obtain rfl : k' = k := of_decide_eq_true htouch
      simp only [exec] at h
      split_ifs at h with hok <;> cases h
      · exact hput ad rfl hok
      · exact hidle
    | delete k' =>
      obtain rfl : k' = k := of_decide_eq_true htouch
      cases h
      have hnone : (w.q.coll.delete k').get k' = none :=
        get_eq_none.2 ((lookup_delete _ _ _).trans (if_pos rfl))
      simp [isRunning, setColl, observe, hnone]
    | _ => cases htouch

/-! ## Standing of a run -/

/-- the handler in progress ends with what `Q` says of its knowledge of the job -/
def Settling (k : JobKey) (Q : Prop → Finish E → Prop) (w : World E) (p : Go E (Finish E)) : Prop :=
  ∃ known : Prop, (known → w.q.coll.isRunning k = false) ∧ Prog.wp (requeueProtocol E k) Q p known

/-- being vacated by the handler in progress, which requeues the job -/
structure Leaving (k : JobKey) (w : World E) : Prop where
  entry : w.isVacated k = true
  handler : ∃ p, w.busy = some p ∧
    Settling k (fun known fin => known ∧ fin.runs = [] ∧ fin.close = [] ∧ fin.vacate = []) w p

/-- vacated, or reaped in a drain, with the job not Running and the handler in progress not touching it -/
structure Gone (k : JobKey) (w : World E) : Prop where
  away : Sched.Away w.core k
  idle : w.q.coll.isRunning k = false
  handler : ∀ p, w.busy = some p → Prog.Calls (fun c => c.touches k = false) p ∧
    Prog.Results (fun fin : Finish E => ∀ r ∈ fin.runs, r.key ≠ k) p

inductive Phase (k : JobKey) (w : World E) : Prop where
  | out (h : k ∉ w.core.running)
  /-- only a sweep that has settled the job vacates the run -/
  | live (h : w.isLive k = true) (hp : ∀ p, w.busy = some p → Settling k (fun known fin => k ∈ fin.vacate → known) w p)
  | leaving (h : w.Leaving k)
  | gone (h : w.Gone k)

/-- the runs the handler in progress will start -/
def NewRuns (w : World E) : Prop := ∀ p, w.busy = some p → Prog.Results (Sched.StartsNew w.core) p

omit [ClassAdLib E] in
theorem isLive_iff : w.isLive k = true ↔ ∃ ri, w.core.running.lookup k = some ri ∧ ri.vacated = false := by
  simp [isLive, Option.any_eq_true]

omit [ClassAdLib E] in
theorem isVacated_iff : w.isVacated k = true ↔ ∃ ri, w.core.running.lookup k = some ri ∧ ri.vacated = true := by
  simp [isVacated, Option.any_eq_true]

variable {p : Go E (Finish E)} {Q : Prop → Finish E → Prop}

/-- steps of other goroutines -/
theorem Settling.frame (h : Settling k Q w p)
    (hq : w.q.coll.isRunning k = false → w'.q.coll.isRunning k = false) : Settling k Q w' p := by
  obtain ⟨known, hknown, hp⟩ := h
  exact ⟨known, fun hk => hq (hknown hk), hp⟩

theorem Leaving.frame (h : w.Leaving k) (hcore : w'.core = w.core) (hbusy : w'.busy = w.busy)
    (hq : w.q.coll.isRunning k = false → w'.q.coll.isRunning k = false) : w'.Leaving k := by
  obtain ⟨p, hb, hp⟩ := h.handler
  refine ⟨?_, p, hbusy.trans hb, hp.frame hq⟩
  rw [isVacated, hcore]
  exact h.entry

theorem Gone.frame (h : w.Gone k) (hcore : w'.core = w.core) (hbusy : w'.busy = w.busy)
    (hq : w.q.coll.isRunning k = false → w'.q.coll.isRunning k = false) : w'.Gone k :=
  ⟨hcore ▸ h.away, hq h.idle, hbusy ▸ h.handler⟩

theorem Phase.frame (h : w.Phase k) (hcore : w'.core = w.core) (hbusy : w'.busy = w.busy)
    (hq : w.q.coll.isRunning k = false → w'.q.coll.isRunning k = false) : w'.Phase k := by
  cases h with
  | out hout => exact .out (hcore ▸ hout)
  | live hlive hp =>
    refine .live (by rw [isLive, hcore]; exact hlive) fun p hb => ?_
    rw [hbusy] at hb
    exact (hp p hb).frame hq
  | leaving hl => exact .leaving (hl.frame hcore hbusy hq)
  | gone hg => exact .gone (hg.frame hcore hbusy hq)

/-! ## The end of a handler -/

variable (cfg : SchedConfig E)

/-- the entry of a job no run of which starts -/
theorem finish_entry {fin : Finish E} (hk : ∀ r ∈ fin.runs, r.key ≠ k) :
    (w.finish cfg fin).core.running.lookup k =
      (w.core.running.lookup k).map fun ri => if k ∈ fin.vacate then Sched.vacateRun ri else ri := by
  let I : World E → Prop := fun w' => w'.core.running.lookup k =
    (w.core.running.lookup k).map fun ri => if k ∈ fin.vacate then vacateRun ri else ri
  refine finish_inv (I := I) (J := I) cfg ?_ ?_ ?_ ?_
  · exact lookup_mapRuns w.core _ k
  · intro w' r hr h
    exact (AList.lookup_insert_ne fun he => hk r hr he.symm).trans h
  · exact fun w' k' req _ h => h
  · exact fun w' h => h

/-- a job without an entry gets at most that of a live run -/
theorem finish_new {fin : Finish E} (hk : k ∉ w.core.running) (hnew : ∀ r ∈ fin.runs, r.info.vacated = false) :
    k ∉ (w.finish cfg fin).core.running ∨ (w.finish cfg fin).isLive k = true := by
  let I : World E → Prop := fun w' => k ∉ w'.core.running ∨ w'.isLive k = true
  refine finish_inv (I := I) (J := I) cfg (.inl ?_) ?_ ?_ ?_
  · exact fun hin => hk (Core.mem_mapRuns.1 hin)
  · intro w' r hr h
    by_cases hkey : k = r.key
    · refine .inr (isLive_iff.2 ⟨r.info, ?_, hnew r hr⟩)
      rw [hkey]
      exact AList.lookup_insert _
    · rcases h with h | h
      · refine .inl fun hin => ?_
        rcases (AList.mem_insert _).1 hin with he | hin
        · exact hkey he
        · exact h hin
      · obtain ⟨ri, hl, hv⟩ := isLive_iff.1 h
        exact .inr (isLive_iff.2 ⟨ri, (AList.lookup_insert_ne hkey).trans hl, hv⟩)
  · exact fun w' k' req _ h => h
  · exact fun w' h => h

/-- the core goes on, and the job of a run that is gone stays so -/
theorem Gone.resume (haway : Sched.Away w.core k) (hidle : w.q.coll.isRunning k = false)
    (hcalls : Prog.Calls (fun c => c.touches k = false) p)
    (hruns : Prog.Results (fun fin : Finish E => ∀ r ∈ fin.runs, r.key ≠ k) p) : (w.resume cfg p).Gone k := by
  cases p with
  | ret fin =>
    obtain ⟨hq, hb, hd, -, -⟩ := finish_frame cfg w fin
    refine ⟨?_, by rw [resume, hq]; exact hidle, fun p hp => ?_⟩
    · have hentry := finish_entry (w := w) cfg hruns
      rcases haway with ⟨ri, hl, hv⟩ | ⟨hout, hdraining⟩
      · refine .inl ⟨_, hentry.trans (by rw [hl]; rfl), ?_⟩
        split_ifs
        · rfl
        · exact hv
      · refine .inr ⟨fun hin => ?_, hd.trans hdraining⟩
        obtain ⟨_, hl⟩ := (mem_iff_lookup _ _).1 hin
        simp only [resume] at hl
        rw [hentry, lookup_none_of_notMem hout] at hl
        cases hl
    · simp only [resume, hb] at hp
      cases hp
  | call => exact ⟨haway, hidle, fun p hp => Option.some.inj hp ▸ ⟨hcalls, hruns⟩⟩

/-- the core goes on while it vacates the run -/
theorem Leaving.resume (hv : w.isVacated k = true)
    (hp : Settling k (fun known fin => known ∧ fin.runs = [] ∧ fin.close = [] ∧ fin.vacate = []) w p) :
    (w.resume cfg p).Leaving k ∧ (w.resume cfg p).closed = w.closed ∨ (w.resume cfg p).Gone k := by
  cases p with
  | ret =>
    obtain ⟨_, hknown, hfin, hruns, _, -⟩ := hp
    refine .inr (Gone.resume cfg (.inl (isVacated_iff.1 hv)) (hknown hfin) trivial fun r hr => ?_)
    rw [hruns] at hr
    cases hr
  | call => exact .inl ⟨⟨hv, _, rfl, hp⟩, rfl⟩

theorem Phase.resume (hnew : Prog.Results (Sched.StartsNew w.core) p)
    (h : k ∉ w.core.running ∨ w.isLive k = true ∧ Settling k (fun known fin => k ∈ fin.vacate → known) w p) :
    (w.resume cfg p).Phase k := by
  cases p with
  | call =>
    rcases h with hout | ⟨hlive, hp⟩
    · exact .out hout
    · exact .live hlive fun p hb => Option.some.inj hb ▸ hp
  | ret fin =>
    obtain ⟨hq, hb, -, -, -⟩ := finish_frame cfg w fin
    have hnone : ∀ p, (w.finish cfg fin).busy = some p → False := by
      intro p hp
      rw [hb] at hp
      cases hp
    rcases h with hout | ⟨hlive, known, hknown, hfin⟩
    · rcases finish_new cfg hout fun r hr => (hnew r hr).vacated with hout' | hlive
      · exact .out hout'
      · exact .live hlive fun p hp => (hnone p hp).elim
    · obtain ⟨ri, hl, hv⟩ := isLive_iff.1 hlive
      have hkey : ∀ r ∈ fin.runs, r.key ≠ k :=
        fun r hr he => (hnew r hr).key (he ▸ (mem_iff_lookup _ _).2 ⟨ri, hl⟩)
      have hentry := finish_entry (w := w) cfg hkey
      rw [hl, Option.map_some] at hentry
      by_cases hvacate : k ∈ fin.vacate
      · rw [if_pos hvacate] at hentry
        exact .gone ⟨.inl ⟨_, hentry, rfl⟩, by rw [resume, hq]; exact hknown (hfin hvacate),
          fun p hp => (hnone p hp).elim⟩
      · rw [if_neg hvacate] at hentry
        exact .live (isLive_iff.2 ⟨ri, hentry, hv⟩) fun p hp => (hnone p hp).elim

/-! ## One step -/

variable {f : c.Resp → Go E (Finish E)}

/-- a command of the core while it requeues -/
theorem Settling.exec (h : Settling k Q w (.call c f)) (hx : w.exec 0 ch c = some (r, w'))
    (hp : (parentKeyFor k).all (fun p => !c.touches p) = true) (hok : ∀ ad, c = .put k ad → ch.ok = true) :
    Settling k Q w' (f r) := by
  obtain ⟨known, hknown, -, hwp⟩ := h
  cases c with
  | get =>
    cases hx
    refine ⟨_, fun hn => ?_, hwp _ trivial⟩
    rcases hn with hn | ⟨rfl, hr⟩
    · exact hknown hn
    · exact hr
  | put k' ad =>
    by_cases hk : k' = k
    · subst hk
      simp only [exec, if_pos (hok ad rfl)] at hx
      cases hx
      refine ⟨_, fun hn => ?_, hwp true fun _ => rfl⟩
      exact isRunning_put_idle _ _ (hn.resolve_left fun hne => hne.1 rfl).2
    · refine ⟨_, fun hn => ?_, hwp r fun he => absurd he hk⟩
      rw [isRunning, exec_get hx (decide_eq_false hk) hp]
      exact hknown (hn.resolve_right fun he => hk he.1).2
  | _ => exact ⟨known, fun hn => exec_isRunning hx hp (fun ad hc => by cases hc) (hknown hn), hwp r trivial⟩

variable {s : Step}

/-- a step as the core sees it: its own, or one of the others, which leaves the registry and the handler alone -/
inductive CoreMove (k : JobKey) (w : World E) : Step → World E → Prop where
  | take (ev : Event) (rest : List Event) (hb : w.busy = none) (he : w.events = ev :: rest) :
      CoreMove k w .take ((took cfg w ev rest).resume cfg (Sched.handle cfg w.core ev).2)
  | sweep (hb : w.busy = none) :
      CoreMove k w .sweep
        ({ w with core := (Sched.sweepExpired cfg w.core).1 }.resume cfg (Sched.sweepExpired cfg w.core).2)
  | core (ch : Choice) (c : Cmd E) (f : c.Resp → Go E (Finish E)) (r : c.Resp) (w₁ : World E)
      (hb : w.busy = some (.call c f)) (hx : w.exec 0 ch c = some (r, w₁)) :
      CoreMove k w (.core ch) (w₁.resume cfg (f r))
  | other (s : Step) (w' : World E) (hcore : w'.core = w.core) (hb : w'.busy = w.busy) (hclosed : w'.closed = w.closed)
      (hq : w.q.coll.isRunning k = false → w'.q.coll.isRunning k = false) : CoreMove k w s w'

theorem step_coreMove (hs : KeepsOff k w s = true) : CoreMove cfg k w s (step cfg w s) := by
  have hmove := step_move cfg w s
  generalize step cfg w s = w' at hmove ⊢
  cases hmove with
  | idle | tool => exact .other _ _ rfl rfl rfl id
  | call _ ev =>
    obtain ⟨hc, -, hb, hcl, hq⟩ := submit_frame w ev
    exact .other _ _ hc hb hcl fun h => by simp only [hq]; exact h
  | take ev rest hb he => exact .take ev rest hb he
  | sweep hb => exact .sweep hb
  | core ch c f r w₁ hb hx => exact .core ch c f r w₁ hb hx
  | thread i ch job role c f r w₁ ht hx =>
    obtain ⟨hc, -, -, hb, hcl⟩ := exec_frame hx
    obtain ⟨hc', hb', hcl', hq'⟩ := resumeThread_frame w₁ i ⟨job, role, .call c f⟩ (f r)
    refine .other _ _ (hc'.trans hc) (hb'.trans hb) (hcl'.trans hcl) fun h => ?_
    rw [hq']
    have hcommand : w.command (.thread i ch) = some (i, c) := by simp [command, ht]
    rw [KeepsOff, hcommand] at hs
    obtain ⟨hparent, hput⟩ := Bool.and_eq_true_iff.1 hs
    refine exec_isRunning hx hparent (fun ad hc hok => ?_) h
    subst hc
    simpa [Step.ok, hok] using hput

/-- the core's command leaves the cluster ad alone, and its writes of the job succeed -/
theorem KeepsOff.core (hs : KeepsOff k w (.core ch) = true) (hb : w.busy = some (.call c f)) :
    (parentKeyFor k).all (fun p => !c.touches p) = true ∧ ∀ ad, c = .put k ad → ch.ok = true := by
  have hcommand : w.command (.core ch) = some (0, c) := by simp [command, hb]
  rw [KeepsOff, hcommand] at hs
  obtain ⟨hparent, hput⟩ := Bool.and_eq_true_iff.1 hs
  refine ⟨hparent, fun ad hc => ?_⟩
  subst hc
  simpa [Step.ok] using hput

omit [ClassAdLib E] in
theorem InOrder.take (hs : InOrder k w .take = true) (hb : w.busy = none) {ev : Event} {rest : List Event}
    (he : w.events = ev :: rest) :
    (ev.startedFor k = true → w.isLive k = true) ∧ (ev.terminalFor k = true → k ∈ w.core.running) ∧
      (ev.tearsDown k = true → w.isLive k = false) := by
  simp only [InOrder, hb, he, Bool.and_eq_true, Bool.or_eq_true, Bool.not_eq_true', decide_eq_true_eq] at hs
  obtain ⟨⟨h1, h2⟩, h3⟩ := hs
  exact ⟨fun h => h1.resolve_left (by simp [h]), fun h => h2.resolve_left (by simp [h]), fun h =>
    h3.resolve_left (by simp [h])⟩

theorem step_newRuns (s : Step) (h : w.NewRuns) : (step cfg w s).NewRuns := by
  have hresume : ∀ (w' : World E) (p : Go E (Finish E)), Prog.Results (Sched.StartsNew w'.core) p →
      (w'.resume cfg p).NewRuns := by
    intro w' p hp p' hb
    cases p with
    | ret fin =>
      rw [resume, (finish_frame cfg w' fin).2.1] at hb
      cases hb
    | call => exact Option.some.inj hb ▸ hp
  have hmove := step_move cfg w s
  generalize step cfg w s = w' at hmove
  cases hmove with
  | idle | tool => exact h
  | call _ ev =>
    obtain ⟨hc, -, hb, -, -⟩ := submit_frame w ev
    intro p hp
    simp only [hb, hc] at hp ⊢
    exact h p hp
  | take ev rest =>
    exact hresume (took cfg w ev rest) _ (handle_starts cfg w.core ev)
  | sweep =>
    exact hresume _ _ ((sweepExpired_finish cfg w.core).mono fun fin hfin => startsNew_nil hfin.1)
  | core ch c f r w₁ hb hx =>
    refine hresume _ _ ?_
    rw [(exec_frame hx).1]
    exact h _ hb r
  | thread i ch job role c f r w₁ ht hx =>
    obtain ⟨hc, -, -, hb, -⟩ := exec_frame hx
    obtain ⟨hc', hb', -, -⟩ := resumeThread_frame w₁ i ⟨job, role, .call c f⟩ (f r)
    intro p hp
    rw [hb', hb] at hp
    rw [hc', hc]
    exact h p hp

/-- a run that is being vacated -/
theorem Leaving.step (h : w.Leaving k) (hs : KeepsOff k w s = true) :
    (step cfg w s).Leaving k ∧ (step cfg w s).closed = w.closed ∨ (step cfg w s).Gone k := by
  obtain ⟨_, hbusy, hp⟩ := h.handler
  have hmove := step_coreMove cfg hs
  generalize World.step cfg w s = w' at hmove ⊢
  cases hmove with
  | take ev rest hb | sweep hb =>
    rw [hb] at hbusy
    cases hbusy
  | core ch c f r w₁ hb hx =>
    obtain ⟨hparent, hok⟩ := KeepsOff.core hs hb
    rw [hb] at hbusy
    obtain rfl := Option.some.inj hbusy
    obtain ⟨hcore, -, -, -, hclosed⟩ := exec_frame hx
    have hv : w₁.isVacated k = true := by
      rw [isVacated, hcore]
      exact h.entry
    rcases Leaving.resume cfg hv (hp.exec hx hparent hok) with ⟨hl, hcl⟩ | hg
    · exact .inl ⟨hl, hcl.trans hclosed⟩
    · exact .inr hg
  | other _ _ hcore hb hclosed hq => exact .inl ⟨h.frame hcore hb hq, hclosed⟩

/-- the core takes an event of another job, or reaps the run in a drain -/
theorem Gone.take (h : w.Gone k) {ev : Event} (rest : List Event) (hstarted : ev.startedFor k = false)
    (hterm : ev.terminalFor k = true → k ∈ w.core.running ∧ w.core.draining = true) :
    ((took cfg w ev rest).resume cfg (Sched.handle cfg w.core ev).2).Gone k := by
  refine Gone.resume (w := took cfg w ev rest) cfg (handle_away cfg h.away fun ht => (hterm ht).2) h.idle
    (handle_spares cfg h.away hstarted fun ht => (hterm ht).1)
    ((handle_startsNew cfg w.core ev).mono fun fin hfin r hr he => ?_)
  rcases h.away with ⟨ri, hl, -⟩ | ⟨-, hd⟩
  · exact (hfin r hr).key (he ▸ (mem_iff_lookup _ _).2 ⟨ri, hl⟩)
  · rw [(hfin r hr).draining] at hd
    cases hd

/-- a run that is gone: its terminal event ends the phase, unless a drain goes on -/
theorem Gone.step (h : w.Gone k) (hs : Heeds k w s = true) :
    (step cfg w s).Gone k ∨ w.core.draining = false ∧ (step cfg w s).Phase k := by
  obtain ⟨hoff, horder⟩ := Bool.and_eq_true_iff.1 hs
  have hdead : w.isLive k = true → False := by
    intro hlive
    obtain ⟨_, hl, hv⟩ := isLive_iff.1 hlive
    exact h.away.ne hl hv rfl
  have hmove := step_coreMove cfg hoff
  generalize World.step cfg w s = w' at hmove ⊢
  cases hmove with
  | take ev rest hb he =>
    obtain ⟨hstarted, hterm, -⟩ := InOrder.take horder hb he
    by_cases hend : ev.terminalFor k = true ∧ w.core.draining = false
    · refine .inr ⟨hend.2,
        Phase.resume (w := took cfg w ev rest) cfg (handle_starts cfg w.core ev) (.inl fun hin => ?_)⟩
      have hfalse := ((handle_registry cfg w.core ev).1 k hin).2
      rw [hend.1] at hfalse
      cases hfalse
    · have hdrain : ev.terminalFor k = true → w.core.draining = true :=
        fun ht => Bool.eq_true_of_not_eq_false fun hd => hend ⟨ht, hd⟩
      exact .inl (h.take cfg rest (Bool.eq_false_iff.2 fun he => hdead (hstarted he)) fun ht => ⟨hterm ht, hdrain ht⟩)
  | sweep =>
    refine .inl (Gone.resume cfg h.away h.idle (sweepExpired_spares cfg h.away)
      ((sweepExpired_finish cfg w.core).mono fun fin hfin r hr => ?_))
    rw [hfin.1] at hr
    cases hr
  | core ch c f r w₁ hb hx =>
    obtain ⟨hparent, -⟩ := KeepsOff.core hoff hb
    obtain ⟨hcalls, hruns⟩ := h.handler _ hb
    obtain ⟨hcore, -⟩ := exec_frame hx
    refine .inl (Gone.resume cfg (hcore ▸ h.away) ?_ (hcalls.2 r) (hruns r))
    rw [isRunning, exec_get hx hcalls.1 hparent]
    exact h.idle
  | other _ _ hcore hb hclosed hq => exact .inl (h.frame hcore hb hq)

/-- **One step.** -/
theorem Phase.step (h : w.Phase k) (hnew : w.NewRuns) (hs : Heeds k w s = true) : (step cfg w s).Phase k := by
  obtain ⟨hoff, horder⟩ := Bool.and_eq_true_iff.1 hs
  -- out of the registry or live: the two go on through the core's steps in the same way
  have hgo : (k ∉ w.core.running ∨ w.isLive k = true ∧
      ∀ p, w.busy = some p → Settling k (fun known fin => k ∈ fin.vacate → known) w p) →
        (World.step cfg w s).Phase k := by
    intro hphase
    have hmove := step_coreMove cfg hoff
    generalize World.step cfg w s = w' at hmove ⊢
    cases hmove with
    | take ev rest hb he =>
      obtain ⟨-, -, htear⟩ := InOrder.take horder hb he
      have hreg := (handle_registry cfg w.core ev).1
      have hstarts := handle_starts cfg w.core ev
      rcases hphase with hout | ⟨hlive, -⟩
      · exact Phase.resume (w := took cfg w ev rest) cfg hstarts (.inl fun hin => hout (hreg k hin).1)
      · obtain ⟨_, hl, hv⟩ := isLive_iff.1 hlive
        have hnotear : ev.tearsDown k = false := Bool.eq_false_iff.2 fun ht => by
          rw [htear ht] at hlive
          cases hlive
        cases hterm : ev.terminalFor k with
        | true =>
          refine Phase.resume (w := took cfg w ev rest) cfg hstarts (.inl fun hin => ?_)
          have hfalse := (hreg k hin).2
          rw [hterm] at hfalse
          cases hfalse
        | false =>
          by_cases hdrain : cfg.reconnectDisabled = true ∧ ∃ done, ev = .evDrain done
          · obtain ⟨hcfg, done, rfl⟩ := hdrain
            obtain ⟨hentry, hwp⟩ := handleDrain_settles hcfg hl hv done False
            rcases Leaving.resume (w := took cfg w (.evDrain done) rest) cfg (isVacated_iff.2 ⟨_, hentry, rfl⟩)
              ⟨False, False.elim, hwp⟩ with hleave | hgone
            · exact .leaving hleave.1
            · exact .gone hgone
          · obtain ⟨ri', hl', hv'⟩ := handle_live cfg hl hv hterm hnotear
              fun hcfg done hev => hdrain ⟨hcfg, done, hev⟩
            refine Phase.resume (w := took cfg w ev rest) cfg hstarts
              (.inr ⟨isLive_iff.2 ⟨ri', hl', hv'⟩, False, False.elim, ?_⟩)
            refine Prog.wp_mono (fun _ fin hfin hin =>
              ?_) ((handle_vacates cfg w.core ev).wp (fun _ _ => trivial) False)
            rw [hfin] at hin
            cases hin
    | sweep =>
      refine Phase.resume cfg ((sweepExpired_finish cfg w.core).mono fun fin hfin => startsNew_nil hfin.1) ?_
      exact hphase.imp id fun hl => ⟨hl.1, False, False.elim, sweepExpired_settles cfg w.core k False⟩
    | core ch c f r w₁ hb hx =>
      obtain ⟨hparent, hok⟩ := KeepsOff.core hoff hb
      obtain ⟨hcore, -⟩ := exec_frame hx
      refine Phase.resume cfg (hcore ▸ hnew _ hb r) ?_
      rcases hphase with hout | ⟨hlive, hp⟩
      · exact .inl (hcore ▸ hout)
      · exact .inr ⟨by rw [isLive, hcore]; exact hlive, (hp _ hb).exec hx hparent hok⟩
    | other _ _ hcore hb hclosed hq => exact h.frame hcore hb hq
  cases h with
  | out hout => exact hgo (.inl hout)
  | live hlive hp => exact hgo (.inr ⟨hlive, hp⟩)
  | leaving hl =>
    rcases hl.step cfg hoff with hleave | hgone
    · exact .leaving hleave.1
    · exact .gone hgone
  | gone hg =>
    rcases hg.step cfg hs with hgone | hphase
    · exact .gone hgone
    · exact hphase.2

theorem step_draining (s : Step) (h : w.core.draining = true) : (step cfg w s).core.draining = true := by
  have hresume : ∀ (w' : World E) (p : Go E (Finish E)), w'.core.draining = true →
      (w'.resume cfg p).core.draining = true := by
    intro w' p hd
    cases p with
    | ret fin => exact (finish_frame cfg w' fin).2.2.1.trans hd
    | call => exact hd
  have hmove := step_move cfg w s
  generalize step cfg w s = w' at hmove
  cases hmove with
  | idle | tool => exact h
  | call _ ev => simp only [(submit_frame w ev).1]; exact h
  | take ev rest => exact hresume (took cfg w ev rest) _ (handle_draining cfg h ev)
  | sweep => exact hresume _ _ h
  | core ch c f r w₁ hb hx => exact hresume _ _ (by rw [(exec_frame hx).1]; exact h)
  | thread i ch job role c f r w₁ ht hx =>
    rw [(resumeThread_frame w₁ i _ _).1, (exec_frame hx).1]
    exact h

/-! ## Runs -/

/-- the job of a run vacated before is not Running -/
def Fresh (k : JobKey) (w : World E) : Bool := !w.isVacated k || !w.q.coll.isRunning k

theorem Fresh.phase (hb : w.busy = none) (h : Fresh k w = true) : w.Phase k := by
  have hnone : ∀ p, w.busy = some p → False := by
    intro p hp
    rw [hb] at hp
    cases hp
  cases hl : w.core.running.lookup k with
  | none =>
    refine .out fun hin => ?_
    obtain ⟨ri, hri⟩ := (mem_iff_lookup _ _).1 hin
    rw [hl] at hri
    cases hri
  | some ri =>
    cases hv : ri.vacated with
    | false => exact .live (isLive_iff.2 ⟨ri, hl, hv⟩) fun p hp => (hnone p hp).elim
    | true =>
      refine .gone ⟨.inl ⟨ri, hl, hv⟩, ?_, fun p hp => (hnone p hp).elim⟩
      simpa [Fresh, isVacated, hl, hv] using h

theorem run_phase {steps : List Step} (h : w.Phase k) (hnew : w.NewRuns)
    (hs : Runs.Meets (step cfg) (fun w s => Heeds k w s = true) w steps) : (run cfg w steps).Phase k :=
  (Runs.foldl_inv_of (A := fun w s => Heeds k w s = true) (P := fun w => w.Phase k ∧ w.NewRuns)
    (fun _ s hs h => ⟨h.1.step cfg h.2 hs, step_newRuns cfg s h.2⟩) ⟨h, hnew⟩ hs).1

/-- after a drain: the channel is not closed before the job is settled -/
def Drained (k : JobKey) (done : ℕ) (w : World E) : Prop :=
  w.core.draining = true ∧ (w.Gone k ∨ w.Leaving k ∧ done ∉ w.closed)

theorem Drained.step {done : ℕ} (h : w.Drained k done) (hs : Heeds k w s = true) : (step cfg w s).Drained k done := by
  refine ⟨step_draining cfg s h.1, ?_⟩
  rcases h.2 with hgone | ⟨hleave, hopen⟩
  · rcases hgone.step cfg hs with hgone' | ⟨hd, -⟩
    · exact .inl hgone'
    · rw [h.1] at hd
      cases hd
  · rcases hleave.step cfg (Bool.and_eq_true_iff.1 hs).1 with ⟨hleave', hclosed⟩ | hgone
    · exact .inr ⟨hleave', hclosed ▸ hopen⟩
    · exact .inl hgone

theorem drain_drained {cfg : SchedConfig E} (hcfg : cfg.reconnectDisabled = true) (hb : w.busy = none) {done : ℕ}
    {rest : List Event} (he : w.events = .evDrain done :: rest) (hopen : done ∉ w.closed) (hk : k ∈ w.core.running)
    (h : Fresh k w = true) : (step cfg w .take).Drained k done := by
  have hstep : step cfg w .take =
    (took cfg w (.evDrain done) rest).resume cfg (handle cfg w.core (.evDrain done)).2 := by
    simp [step, hb, he, took]
  have hdraining : (handle cfg w.core (.evDrain done)).1.draining = true := by
    simp only [handle, handleDrain]
    split_ifs <;> rfl
  rw [hstep]
  refine ⟨?_, ?_⟩
  · cases (handle cfg w.core (.evDrain done)).2 with
    | ret fin => exact (finish_frame cfg _ fin).2.2.1.trans hdraining
    | call => exact hdraining
  · cases Fresh.phase hb h with
    | out hout => exact absurd hk hout
    | live hlive _ =>
      obtain ⟨_, hl, hv⟩ := isLive_iff.1 hlive
      obtain ⟨hentry, hwp⟩ := handleDrain_settles hcfg hl hv done False
      rcases Leaving.resume (w := took cfg w (.evDrain done) rest) cfg (isVacated_iff.2 ⟨_, hentry, rfl⟩)
        ⟨False, False.elim, hwp⟩ with ⟨hleave, hclosed⟩ | hgone
      · exact .inr ⟨hleave, by rw [hclosed]; exact hopen⟩
      · exact .inl hgone
    | leaving hleave =>
      obtain ⟨_, hp, -⟩ := hleave.handler
      rw [hb] at hp
      cases hp
    | gone hgone => exact .inl (hgone.take cfg rest rfl fun ht => by cases ht)

/-- **An abandoned run does not leave its job Running.** From any state between two handlers, along every execution in
which no `evStarted` of the run is taken once it is vacated: when the core takes the terminal event of a vacated run,
the job is not Running; and when a drain with reconnect disabled has closed its channel, no job that had an entry is. -/
theorem abandoned_run_not_running (cfg : SchedConfig E) (w : World E) (hb : w.busy = none) (steps : List Step) :
    (∀ k, Fresh k w = true → Runs.Meets (step cfg) (fun w s => Heeds k w s = true) w steps →
      ∀ ev rest, (run cfg w steps).busy = none → (run cfg w steps).events = ev :: rest → ev.terminalFor k = true →
        (run cfg w steps).isVacated k = true → (run cfg w (steps ++ [.take])).q.coll.isRunning k = false) ∧
    ∀ done rest, cfg.reconnectDisabled = true → w.events = .evDrain done :: rest → done ∉ w.closed →
      (∀ k ∈ w.core.running, Fresh k w = true ∧
        Runs.Meets (step cfg) (fun w s => Heeds k w s = true) w (.take :: steps)) →
      done ∈ (run cfg w (.take :: steps)).closed →
        ∀ k ∈ w.core.running, (run cfg w (.take :: steps)).q.coll.isRunning k = false := by
  have hnew : w.NewRuns := by
    intro p hp
    rw [hb] at hp
    cases hp
  refine ⟨fun k hfresh hs ev rest hb' he' hev hv => ?_, fun done rest hcfg he hopen hall hclosed k hk => ?_⟩
  · obtain ⟨ri, hl, hvac⟩ := isVacated_iff.1 hv
    have hidle : (run cfg w steps).q.coll.isRunning k = false := by
      cases run_phase cfg (Fresh.phase hb hfresh) hnew hs with
      | out hout => exact absurd ((mem_iff_lookup _ _).2 ⟨ri, hl⟩) hout
      | live hlive =>
        obtain ⟨_, hl', hv'⟩ := isLive_iff.1 hlive
        rw [hl] at hl'
        rw [← Option.some.inj hl', hvac] at hv'
        cases hv'
      | leaving hleave =>
        obtain ⟨_, hp, -⟩ := hleave.handler
        rw [hb'] at hp
        cases hp
      | gone hgone => exact hgone.idle
    have hrun : run cfg w (steps ++ [.take]) = step cfg (run cfg w steps) .take := by simp [run]
    have hstep : step cfg (run cfg w steps) .take =
        (took cfg (run cfg w steps) ev rest).finish cfg { close := (reap (run cfg w steps).core k).2 } := by
      simp [step, hb', he', took, handle_silent cfg hl hvac hev, resume]
    rw [hrun, hstep, (finish_frame cfg _ _).1]
    exact hidle
  · obtain ⟨hfresh, hs⟩ := hall k hk
    have hdrained : (run cfg w (.take :: steps)).Drained k done :=
      Runs.foldl_inv_of (A := fun w s => Heeds k w s = true) (P := fun w => w.Drained k done) (fun _ _ hs h =>
        h.step cfg hs)
        (drain_drained hcfg hb he hopen hk hfresh) hs.2
    rcases hdrained.2 with hgone | ⟨-, hnot⟩
    · exact hgone.idle
    · exact absurd hclosed hnot

end World

end

namespace World

/-- a schedd with reconnect disabled -/
def vacatingSched : SchedConfig Value := { poolSched with reconnectDisabled := true }

/-- the job runs, and a drain is submitted -/
def drainSubmitted : World Value := run vacatingSched (start aliceQueue) (started ++ [.drain])

/-- the job goes back to Idle, and the run ends -/
def windDown : List Step := List.replicate 4 (.core smooth) ++ List.replicate 2 (.thread 1 smooth)

/-- and is reaped -/
def reaped : List Step := windDown ++ [.take]

theorem abandoned_run_drained :
    drainSubmitted.q.coll.isRunning ⟨1, 0⟩ = true ∧
      (run vacatingSched drainSubmitted ((.take :: windDown) ++ [.take])).q.coll.isRunning ⟨1, 0⟩ = false ∧
      2 ∈ (run vacatingSched drainSubmitted (.take :: reaped)).closed ∧
      ∀ k ∈ drainSubmitted.core.running,
        (run vacatingSched drainSubmitted (.take :: reaped)).q.coll.isRunning k = false := by
  -- the two states, each evaluated once
  obtain ⟨hbusy, hfresh, hlist, hdrain, hopen, hrunning⟩ : drainSubmitted.busy.isNone = true ∧
      Fresh ⟨1, 0⟩ drainSubmitted = true ∧ drainSubmitted.core.running.keys = [⟨1, 0⟩] ∧
      drainSubmitted.events = [.evDrain 2] ∧ 2 ∉ drainSubmitted.closed ∧
      drainSubmitted.q.coll.isRunning ⟨1, 0⟩ = true := by decide +kernel
  obtain ⟨hidle, hexit, hvacated, hclosed, hmeets⟩ :
    (run vacatingSched drainSubmitted (.take :: windDown)).busy.isNone = true ∧
      (run vacatingSched drainSubmitted (.take :: windDown)).events = [.evExited ⟨1, 0⟩ (some ⟨0, 100⟩) none] ∧
      (run vacatingSched drainSubmitted (.take :: windDown)).isVacated ⟨1, 0⟩ = true ∧
      2 ∈ (run vacatingSched drainSubmitted (.take :: reaped)).closed ∧
      Runs.Meets (step vacatingSched) (fun w s => Heeds ⟨1, 0⟩ w s = true) drainSubmitted (.take :: reaped) := by
    decide +kernel
  rw [Option.isNone_iff_eq_none] at hbusy hidle
  refine ⟨hrunning, ?_, hclosed, ?_⟩
  · have hpart : Runs.Meets (step vacatingSched) (fun w s =>
      Heeds ⟨1, 0⟩ w s = true) drainSubmitted (.take :: windDown) :=
      (Runs.meets_append.1 (show Runs.Meets _ _ _ ((.take :: windDown) ++ [.take]) from hmeets)).1
    exact (abandoned_run_not_running vacatingSched drainSubmitted hbusy (.take :: windDown)).1 _ hfresh hpart _ _
      hidle hexit
      (by decide) hvacated
  · have hall : ∀ k ∈ drainSubmitted.core.running, Fresh k drainSubmitted = true ∧
        Runs.Meets (step vacatingSched) (fun w s => Heeds k w s = true) drainSubmitted (.take :: reaped) := by
      intro k hk
      have hin : k ∈ drainSubmitted.core.running.keys := hk
      rw [hlist] at hin
      rw [List.mem_singleton.1 hin]
      exact ⟨hfresh, hmeets⟩
    exact (abandoned_run_not_running vacatingSched drainSubmitted hbusy reaped).2 2 [] rfl hdrain hopen hall
      hclosed

/-- the drain is taken before the `evStarted` of a claim just activated -/
def lateStart : List Step :=
  accepted ++ [.drain] ++ List.replicate 2 (.thread 1 smooth) ++ [.take, .core smooth, .take] ++
    List.replicate 4 (.core smooth) ++ List.replicate 2 (.thread 1 smooth) ++ [.take]

/-- the drain is over, no run is left, and the job is Running -/
theorem late_start_strands_job :
    let w := run vacatingSched (start aliceQueue) lateStart
    Runs.Meets (step vacatingSched) (fun w s => KeepsOff ⟨1, 0⟩ w s = true) (start aliceQueue) lateStart ∧
      2 ∈ w.closed ∧ w.core.running.keys = [] ∧ w.threads.keys = [] ∧ w.events = [] ∧
      w.q.coll.isRunning ⟨1, 0⟩ = true := by
  decide +kernel

end World

end AccessPoint
