/-
A hold or removal against a run being started (internal/sched/sched.go, `handleMatch`, `handleStarted`,
`handleTeardown`; internal/queue/actions.go, `actOnJob`).

Between the match and the `evStarted` of its run a job is Idle in the queue and has an entry in the registry. An action
that finds it Idle does not ask the core, and `handleStarted` does not look whether the job may still run. An action
that finds the job Running asks for a teardown, and when its wait is over the run is gone. What an action can rely on is
that the job is `Still`: nothing the core has in hand or will take can write the job or start a run of it.

- `handle_rests`, `sweepExpired_rests`: what the core does to a job that has no entry or a vacated one.
- `settled`: the job is out of the core's hands, as far as the state shows; `Still`: in fact; `Still.step`.
- `Flight`: an action is past the point where it may write only when the job is `Still`.
- `hold_and_remove_win`: along every execution in which an action that did not ask the core, or gave up waiting, finds
  the job settled, a held job stays Held until a release and a removed job leaves no live run.
-/
import AccessPoint.Sched.Outstanding

namespace AccessPoint

open ClassAdLib World List Sched KeyMap

section

variable {E : Type} [ClassAdLib E]

/-- the job is gone, or Held by its own ad -/
def Store.aside (s : Store E) (k : JobKey) : Prop :=
  ∀ own, s.lookup k = some own → own .jobStatus = some (lit (.int statusHeld))

theorem Store.aside.get {s : Store E} {k : JobKey} (h : s.aside k) {ad : Ad E} (hg : s.get k = some ad) :
    ad.int0 .jobStatus = statusHeld := by
  obtain ⟨own, hl, rfl⟩ := Store.get_eq_some.1 hg
  exact Ad.int0_lit (by simp [h own hl])

theorem Store.aside.scan {s : Store E} {k : JobKey} (h : s.aside k) (hs : s.Keyed) {ad : Ad E} (hin : ad ∈ s.scan)
    (hids : ad.ids = k) : ad.int0 .jobStatus = statusHeld := by
  obtain ⟨k', hk', hg⟩ := Store.mem_scan.1 hin
  have hkey : k' = k := ((hs.get hg).ids hk').symm.trans hids
  exact h.get (hkey ▸ hg)

/-! ## A job the core leaves alone -/

/-- `k` is not written; if it is aside, the reads show it so -/
def restProtocol (E : Type) [ClassAdLib E] (k : JobKey) (aside : Prop) : Prog.Protocol (Cmd.Resp (E := E)) Unit where
  allowed := fun _ c => c.touches k = false
  expects := fun _ c =>
    match c with
    | .get k' => fun r : Option (Ad E) => aside → k' = k → ∀ ad, r = some ad → ad.int0 .jobStatus = statusHeld
    | .scan => fun ads : List (Ad E) => aside → ∀ ad ∈ ads, ad.ids = k → ad.int0 .jobStatus = statusHeld
    | _ => fun _ => True
  next := fun _ _ _ => ()

/-- the handler neither writes `k` nor starts a run of it -/
abbrev Rests (k : JobKey) (aside : Prop) (p : Go E (Finish E)) : Prop :=
  Prog.wp (restProtocol E k aside) (fun _ fin => ∀ r ∈ fin.runs, r.key ≠ k) p ()

/-- a handler that needs to know nothing of the job -/
theorem Rests.weaken {k : JobKey} {aside : Prop} {p : Go E (Finish E)} (h : Rests k False p) : Rests k aside p := by
  induction p with
  | ret => exact h
  | call c f ih =>
    refine ⟨h.1, fun r _ => ih r (h.2 r ?_)⟩
    cases c <;> first | trivial | exact fun hf => hf.elim

namespace Sched

open Prog

variable {k : JobKey} {aside : Prop}

theorem rests_of {p : Go E (Finish E)} (hcalls : Calls (fun c => c.touches k = false) p)
    (hruns : Results (fun fin : Finish E => ∀ r ∈ fin.runs, r.key ≠ k) p) : Rests k aside p :=
  hcalls.wp (fun _ _ hc => hc) hruns ()

variable (cfg : SchedConfig E)

/-- a recovery scan that finds the job not Running -/
theorem recoverLoop_rests (core : Core) (now : ℤ) {ads : List (Ad E)}
    (hads : ∀ ad ∈ ads, ad.ids = k → ad.int0 .jobStatus = statusHeld) :
    wp (restProtocol E k aside) (fun _ r => ∀ n ∈ r.1, n.key ≠ k) (recoverLoop cfg core now ads) () := by
  induction ads with
  | nil => exact fun n hn => absurd hn not_mem_nil
  | cons ad ads ih =>
    have hrest := ih fun ad' hin => hads ad' (mem_cons_of_mem ad hin)
    unfold recoverLoop
    dsimp only
    refine wp_ite (fun _ => hrest) fun hrun => ?_
    have hne : (⟨ad.int0 .clusterId, ad.int0 .procId⟩ : JobKey) ≠ k := by
      intro hk
      refine hrun (.inl ?_)
      rw [hads ad mem_cons_self hk]
      decide
    refine wp_ite (fun _ => wp_bind.2 ?_) fun _ => wp_bind.2 (wp_mono (fun _ rest hr => ?_) hrest)
    · refine wp_mono (Q := fun _ _ => True) (fun _ _ _ => hrest) ?_
      exact (Tidy.calls ((tidy_parts cfg _).requeueToIdle _ hne)).wp (fun _ _ hc => hc) (results_true _) ()
    · intro n hn
      rcases mem_cons.1 hn with rfl | hn
      · exact hne
      · exact hr n hn

theorem jobStatus_rests (haside : aside) (k : JobKey) :
    wp (restProtocol E k aside) (fun _ status => status ≠ statusIdle) (Queue.jobStatus k : Go E ℤ) () := by
  refine ⟨rfl, fun r hr => ?_⟩
  cases r with
  | none => exact (by decide : (0 : ℤ) ≠ statusIdle)
  | some ad =>
    have hheld : ad.int0 .jobStatus = statusHeld := hr haside rfl ad rfl
    have hne : ad.int0 .jobStatus ≠ statusIdle := by
      rw [hheld]
      decide
    exact hne

variable {core : Core} {ev : Event}

/-- only events of the run, a drain of its entry and a recovery scan may write the job -/
theorem not_writes (hof : ev.ofRun k = false) (hrec : ev.recovers = false)
    (hdrain : ev.drains = true → k ∉ core.running) : ¬ writes core ev k := by
  have hnot : ∀ k', decide (k' = k) = false → k ≠ k' := fun k' hne he => of_decide_eq_false hne he.symm
  simp only [Event.ofRun, Bool.or_eq_false_iff] at hof
  cases ev with
  | evStarted k' => exact hnot k' hof.1
  | evExited k' | evFailed k' | evReconnectFailed k' =>
    exact hnot k' hof.2
  | evDrain => exact hdrain rfl
  | evRecover => cases hrec
  | _ => exact id

theorem handle_leaves (hof : ev.ofRun k = false)
    (hrec : ev.recovers = false) (hdrain : ev.drains = true → k ∉ core.running) :
    Calls (fun c => c.touches k = false) (handle cfg core ev).2 := by
  refine Tidy.calls (handle_tidy cfg core ev fun k' hw he => ?_)
  exact not_writes hof hrec hdrain (he ▸ hw)

/-- **What the core does to a job without a live run:** it leaves it alone, unless it takes its `evStarted`, or, while
the job is not aside, a match of it or a recovery scan -/
theorem handle_rests (hentry : ∀ ri, core.running.lookup k = some ri →
      ri.vacated = true) (hstarted : ev.startedFor k = false)
    (hterm : ev.terminalFor k = true → k ∈ core.running)
    (hmatch : aside ∨ ev.starts k = false ∧ ev.recovers = false) : Rests k aside (handle cfg core ev).2 := by
  by_cases hin : k ∈ core.running
  · obtain ⟨ri, hl⟩ := (mem_iff_lookup _ _).1 hin
    have haway : Away core k := .inl ⟨ri, hl, hentry ri hl⟩
    refine rests_of (handle_spares cfg haway hstarted hterm)
      ((handle_startsNew cfg core ev).mono fun fin hfin r hr he => ?_)
    exact (hfin r hr).key (he ▸ hin)
  · cases hrec : ev.recovers with
    | true =>
      have haside : aside := hmatch.resolve_right fun h => by rw [hrec] at h; cases h.2
      cases ev with
      | evRecover =>
        simp only [handle, handleRecover]
        refine wp_ite (fun _ r hr => absurd hr not_mem_nil) fun _ => ?_
        refine wp_bind.2 ⟨rfl, fun now _ => wp_bind.2 ⟨rfl, fun ads hads => wp_bind.2 ?_⟩⟩
        exact wp_mono (fun _ r hr => hr) (recoverLoop_rests cfg core now (hads haside))
      | _ => cases hrec
    | false =>
      have hof : ev.ofRun k = false := by
        rw [Event.ofRun, hstarted, Bool.false_or]
        exact Bool.eq_false_iff.2 fun ht => hin (hterm ht)
      have hcalls := handle_leaves cfg hof hrec fun _ => hin
      by_cases hs : ev.starts k = true
      · have haside : aside := hmatch.resolve_right fun h => by rw [hs] at h; cases h.1
        cases ev with
        | evMatch m =>
          obtain rfl : m.key = k := of_decide_eq_true hs
          simp only [handle, handleMatch]
          split_ifs
          · exact fun r hr => absurd hr not_mem_nil
          · refine wp_bind.2 (wp_mono (fun _ status hstatus => ?_) (jobStatus_rests haside m.key))
            rw [if_pos hstatus]
            exact fun r hr => absurd hr not_mem_nil
        | _ => cases hs
      · refine rests_of hcalls ((handle_finish cfg core ev hrec).mono fun fin hfin r hr he => hs ?_)
        cases hfin with
        | closes hruns => rw [hruns] at hr; cases hr
        | starts m r' hm _ hruns hkey =>
          rw [hruns] at hr
          obtain rfl := mem_singleton.1 hr
          subst hm
          exact decide_eq_true (hkey.symm.trans he)

theorem sweepExpired_rests
    (hentry : ∀ ri, core.running.lookup k = some ri → ri.vacated = true) : Rests k aside (sweepExpired cfg core).2 := by
  refine rests_of (Tidy.calls (sweepExpired_tidy cfg fun k' ri hl hv he => ?_))
    ((sweepExpired_finish cfg core).mono fun fin hfin r hr => ?_)
  · subst he
    rw [hentry ri hl] at hv
    cases hv
  · rw [hfin.1] at hr
    cases hr

end Sched

end

namespace Obs

/-- the last hold or release of `k` that took place is a hold, after one more entry of the trace -/
def holds (k : JobKey) (b : Bool) : Obs → Bool
  | .put _ k' true (some .hold) => k' = k || b
  | .put _ k' true (some .release) => k' ≠ k && b
  | _ => b

/-- a removal of `k` takes place -/
def removes (k : JobKey) : Obs → Bool
  | .deleted _ k' (some kind) => k' = k && kind.removes
  | _ => false

end Obs

namespace World

section

variable {E : Type}

/-- a hold of `k` has succeeded, and no release since -/
def held (k : JobKey) (w : World E) : Bool := w.trace.foldl (Obs.holds k) false

/-- a removal of `k` has succeeded -/
def removed (k : JobKey) (w : World E) : Bool := w.trace.any (Obs.removes k)

/-- a hold or removal of `k` is in flight -/
def acting (k : JobKey) (w : World E) : Bool :=
  w.threads.entries.any fun e => e.2.job = k && e.2.role.kind.any ActionKind.ends

/-- the job is out of the core's hands: without an entry, and no match, end of a run or recovery scan in hand; or with a
vacated one whose start is over, and neither an event of the run nor a drain or recovery scan in hand -/
def settled (k : JobKey) (w : World E) : Bool :=
  match w.core.running.lookup k with
  | none => w.handling.all fun ev => !(ev.starts k || ev.terminalFor k || ev.recovers)
  | some ri => ri.vacated && ri.cancelled && (ri.reconnect || w.begun k) &&
      w.handling.all fun ev => !(ev.ofRun k || ev.recovers || ev.drains)

variable {kind : ActionKind} {i : ℕ}

theorem acting_of {k : JobKey} {w : World E} {th : Thread E}
    (hl : w.threads.lookup i = some th) (hjob : th.job = k) (hkind : th.role.kind = some kind)
    (hends : kind.ends = true) :
    w.acting k = true := by
  refine any_eq_true.2 ⟨⟨i, th⟩, AList.mem_lookup_iff.1 hl, ?_⟩
  simp [hjob, hkind, hends]

theorem settled_congr {k : JobKey} {w w' : World E} (hcore : w'.core = w.core) (hhand : w'.handling = w.handling)
    (hbegun : w'.begun k = w.begun k) : w'.settled k = w.settled k := by
  unfold settled
  rw [hcore, hhand, hbegun]

variable [ClassAdLib E]

/-- while a hold or removal of `k` is in flight the core takes no match of it and no recovery scan; the action finds the
job settled when it reads it not Running and when it gives up waiting; and no action writes a job that is gone -/
def GivesWay (k : JobKey) (w : World E) (s : Step) : Bool :=
  match s, w.busy, w.events with
  | .take, none, ev :: _ => !(ev.starts k || ev.recovers) || !w.acting k
  | .thread i ch, _, _ =>
    match w.threads.lookup i with
    | some ⟨job, role, .call c _⟩ => job ≠ k || role.kind.isNone ||
        match c with
        | .get _ => !role.kind.any ActionKind.ends || w.q.coll.isRunning k || w.settled k
        | .await => !ch.timeout || w.settled k
        | .put _ _ => !ch.ok || (w.q.coll.lookup k).isSome
        | _ => true
    | _ => true
  | _, _, _ => true

/-! ## A job the core has done with -/

/-- no live entry, no start to come, and a handler that leaves the job alone -/
structure Still (k : JobKey) (aside : Prop) (w : World E) : Prop where
  entry : ∀ ri, w.core.running.lookup k = some ri → ri.vacated = true ∧ ri.cancelled = true
  noStart : NoStart k w
  handler : ∀ p, w.busy = some p → Rests k aside p

variable {k : JobKey} {aside : Prop} {w w' : World E} {cfg : SchedConfig E}

theorem Still.weaken (h : Still k False w) : Still k aside w :=
  ⟨h.entry, h.noStart, fun p hp => (h.handler p hp).weaken⟩

/-- the core goes on -/
theorem Still.resume (hentry : ∀ ri, w.core.running.lookup k = some ri → ri.vacated = true ∧ ri.cancelled = true)
    (hstart : NoStart k w) {p : Go E (Finish E)} (hp : Rests k aside p) : Still k aside (w.resume cfg p) := by
  cases p with
  | ret fin =>
    refine ⟨fun ri hl => ?_, hstart.finish hp, fun p hb => ?_⟩
    · have hlookup := finish_entry (w := w) cfg hp
      simp only [World.resume] at hl
      rw [hl] at hlookup
      obtain ⟨ri₀, hl₀, hri⟩ := Option.map_eq_some_iff.1 hlookup.symm
      split_ifs at hri
      · rw [← hri]
        exact ⟨rfl, rfl⟩
      · exact hri ▸ hentry ri₀ hl₀
    · simp only [World.resume, (finish_frame cfg w fin).2.1] at hb
      cases hb
  | call => exact ⟨hentry, ⟨hstart.events, hstart.runs⟩, fun p hb => Option.some.inj hb ▸ hp⟩

variable {ch : Choice} {c : Cmd E} {t : ℕ} {r : c.Resp}

/-- what the core reads of a job that is aside -/
theorem exec_rests (hx : w.exec t ch c = some (r, w'))
    (hstore : aside → w.q.coll.aside k) (hkeyed : w.q.coll.Keyed) : (restProtocol E k aside).expects () c r := by
  cases c with
  | get =>
    cases hx
    rintro haside rfl ad had
    exact (hstore haside).get had
  | scan =>
    cases hx
    exact fun haside ad hin hids => (hstore haside).scan hkeyed hin hids
  | _ => trivial

omit [ClassAdLib E] in
/-- the step has the core take neither a match of `k` nor a recovery scan -/
def Spares (k : JobKey) (w : World E) (s : Step) : Prop :=
  ∀ ev rest, s = .take → w.busy = none → w.events = ev :: rest → ev.starts k = false ∧ ev.recovers = false

/-- the terminal event of a run is one of a run in the registry -/
theorem Single.of_terminal (h : Single cfg w) {ev : Event} (hin : ev ∈ w.events) (hterm : ev.terminalFor k = true) :
    k ∈ w.core.running := by
  have hpos : 0 < w.endsOf k := countP_pos_iff.2 ⟨ev, hin, hterm⟩
  exact (h.runs k).2 (Nat.add_pos_right _ hpos)

variable {s : Step}

/-- **One step.** -/
theorem Still.step (h : Still k aside w) (htrack : Tracked cfg k w) (hstore : aside → w.q.coll.aside k)
    (hs : aside ∨ Spares k w s) : Still k aside (step cfg w s) := by
  have hmove := step_move cfg w s
  generalize World.step cfg w s = w' at hmove
  cases hmove with
  | idle => exact h
  | tool => exact ⟨h.entry, h.noStart.spawn (by simp), h.handler⟩
  | call _ ev n os hev =>
    obtain ⟨hcore, hth, hbusy, -, -⟩ := submit_frame w ev
    have hadds : Adds (· = ev) w { w.submit ev with nextTid := n, trace := w.trace ++ os } := submit_adds w ev
    have hother : ev.startedFor k = false := by
      cases s <;> simp only [callEvent, reduceCtorEq, Option.some.injEq] at hev <;> subst hev <;> rfl
    exact ⟨by simp only [hcore]; exact h.entry, h.noStart.frame hth (hadds.mono fun _ he => he ▸ hother),
      by simp only [hbusy]; exact h.handler⟩
  | take ev rest hb he =>
    have hin : ev ∈ w.events := he ▸ mem_cons_self
    refine Still.resume (w := took cfg w ev rest) (fun ri' hl => ?_) (h.noStart.took he) ?_
    · obtain ⟨ri, hl₀, hremains⟩ := handle_entry cfg w.core ev hl
      exact ⟨hremains.vacated (h.entry ri hl₀).1, hremains.cancelled (h.entry ri hl₀).2⟩
    · exact handle_rests cfg (fun ri hl => (h.entry ri hl).1) (h.noStart.events ev hin)
        (htrack.single.of_terminal hin) (hs.imp_right fun hspares => hspares ev rest rfl hb he)
  | sweep => exact Still.resume h.entry h.noStart (sweepExpired_rests cfg fun ri hl => (h.entry ri hl).1)
  | core ch c f r w₁ hb hx =>
    obtain ⟨hcore, hthreads, -⟩ := exec_frame hx
    refine Still.resume (by rw [hcore]; exact h.entry)
      (h.noStart.frame hthreads ((exec_adds hx).mono fun ev hev => ?_)) ?_
    · obtain ⟨_, _, rfl⟩ := meek_event (htrack.meek _ hb).1 hev
      rfl
    · exact (h.handler _ hb).2 r (exec_rests hx hstore htrack.single.keyed)
  | thread i ch job role c f r w₁ ht hx =>
    have hframe := thread_frame hx k ⟨job, role, .call c f⟩ (f r)
    exact ⟨by rw [hframe.core]; exact h.entry,
      h.noStart.thread htrack.single ht hx fun hrole =>
        (htrack.own i _ ht hrole).1, by rw [hframe.busy]; exact h.handler⟩

/-! ## A settled job -/

/-- a handler in progress leaves a settled job alone -/
def InHand (k : JobKey) (w : World E) : Prop := w.settled k = true → ∀ p, w.busy = some p → Rests k False p

omit [ClassAdLib E] in
theorem settled_entry (h : w.settled k = true) {ri : RunInfo} (hl : w.core.running.lookup k = some ri) :
    ri.vacated = true ∧ ri.cancelled = true ∧ (ri.reconnect = true ∨ w.begun k = true) := by
  simp only [settled, hl, Bool.and_eq_true, Bool.or_eq_true] at h
  exact ⟨h.1.1.1, h.1.1.2, h.1.2⟩

theorem settled_still (htrack : Tracked cfg k w) (hhand : InHand k w) (h : w.settled k = true) : Still k False w := by
  refine ⟨fun ri hl => ⟨(settled_entry h hl).1, (settled_entry h hl).2.1⟩, ?_, hhand h⟩
  cases hl : w.core.running.lookup k with
  | none =>
    refine htrack.starts.noStart htrack.single fun hin => ?_
    obtain ⟨ri, hl'⟩ := (mem_iff_lookup _ _).1 hin
    rw [hl] at hl'
    cases hl'
  | some ri =>
    rcases (settled_entry h hl).2.2 with hr | hb
    · exact htrack.starts.reconnect ri hl hr
    · exact (htrack.starts.begun hb).2

theorem InHand.resume {p : Go E (Finish E)} (h : w.settled k = true → Rests k False p) : InHand k (w.resume cfg p) := by
  intro hs p' hb
  cases p with
  | ret fin =>
    simp only [World.resume, (finish_frame cfg w fin).2.1] at hb
    cases hb
  | call =>
    obtain rfl := Option.some.inj hb
    exact h hs

/-- the handler of an event that is in hand -/
theorem InHand.took (htrack : Tracked cfg k w) {ev : Event} {rest : List Event} (he : w.events = ev :: rest)
    (h : (World.took cfg w ev rest).settled k = true) : Rests k False (Sched.handle cfg w.core ev).2 := by
  have hin : ev ∈ w.events := he ▸ mem_cons_self
  have hhand : (World.took cfg w ev rest).handling = some ev := handling_observe _ _
  cases hl : (World.took cfg w ev rest).core.running.lookup k with
  | none =>
    simp only [settled, hl, hhand, Option.all_some, Bool.not_eq_true', Bool.or_eq_false_iff] at h
    obtain ⟨⟨hstarts, hterm⟩, hrec⟩ := h
    have hout : k ∉ w.core.running := by
      intro hk
      obtain ⟨ri, hl'⟩ := (mem_iff_lookup _ _).1 (handle_keeps cfg w.core ev hk hterm)
      have hsome : (World.took cfg w ev rest).core.running.lookup k = some ri := hl'
      rw [hl] at hsome
      cases hsome
    refine handle_rests cfg (fun ri hl' => ?_) (Bool.eq_false_iff.2 fun hs =>
      hout (htrack.starts.channel ev hin hs))
      (fun ht => ?_) (.inr ⟨hstarts, hrec⟩)
    · exact absurd ((mem_iff_lookup _ _).2 ⟨ri, hl'⟩) hout
    · rw [hterm] at ht
      cases ht
  | some ri =>
    simp only [settled, hl, hhand, Option.all_some, Bool.and_eq_true, Bool.not_eq_true', Bool.or_eq_false_iff] at h
    obtain ⟨-, ⟨hof, hrec⟩, hdrain⟩ := h
    have hk : k ∈ w.core.running :=
      ((handle_registry cfg w.core ev).1 k ((mem_iff_lookup _ _).2 ⟨ri, hl⟩)).1
    have hother : Prog.Results (fun fin : Finish E => ∀ r ∈ fin.runs, r.key ≠ k) (handle cfg w.core ev).2 := by
      refine (handle_startsNew cfg w.core ev).mono fun fin hfin r hr hkey => (hfin r hr).key ?_
      rw [hkey]
      exact hk
    refine rests_of (handle_leaves cfg hof hrec fun hd => ?_) hother
    rw [hdrain] at hd
    cases hd

theorem InHand.step (h : InHand k w) (htrack : Tracked cfg k w) (s : Step) : InHand k (step cfg w s) := by
  have hmove := step_move cfg w s
  generalize World.step cfg w s = w' at hmove
  cases hmove with
  | idle | tool => exact h
  | call _ ev n os hev hn hch hos =>
    obtain ⟨hcore, -, hbusy, -, -⟩ := submit_frame w ev
    have hhand : (w.trace ++ os).foldl Obs.hand none = w.handling := by
      rw [foldl_append]
      rcases hos with rfl | ⟨m, -, rfl⟩ <;> rfl
    have hbegun : (w.trace ++ os).foldl (Obs.begins k) false = w.begun k := by
      rw [foldl_append]
      rcases hos with rfl | ⟨m, -, rfl⟩ <;> rfl
    intro hs p hp
    have hsettled : ({ w.submit ev with nextTid := n, trace := w.trace ++ os } : World E).settled k = w.settled k :=
      settled_congr hcore hhand hbegun
    rw [hsettled] at hs
    simp only [hbusy] at hp
    exact h hs p hp
  | take ev rest hb he =>
    exact InHand.resume (w := World.took cfg w ev rest) fun hs => InHand.took htrack he hs
  | sweep =>
    refine InHand.resume fun hs => sweepExpired_rests cfg fun ri hl => ?_
    exact (settled_entry (w := w) hs hl).1
  | core ch c f r w₁ hb hx =>
    obtain ⟨hcore, -⟩ := exec_frame hx
    obtain ⟨hhand, hbegun⟩ := exec_hand (k := k) hx
    refine InHand.resume fun hs => ?_
    rw [settled_congr hcore hhand hbegun] at hs
    exact (h hs _ hb).2 r (exec_rests hx False.elim htrack.single.keyed)
  | thread i ch job role c f r w₁ ht hx =>
    have hframe := thread_frame hx k ⟨job, role, .call c f⟩ (f r)
    intro hs p hp
    rw [settled_congr hframe.core hframe.handling hframe.begun] at hs
    rw [hframe.busy] at hp
    exact h hs p hp

/-! ## Actions in flight -/

/-- an action that may write, or whose wait has been answered, has a job that is still -/
def Flight (k : JobKey) (w : World E) (i : ℕ) (st : Stage) : Prop := i ∈ w.closed ∨ st.free = true → Still k False w

/-- every action keeps to its protocol, and so do the holds and removals of `k` in flight -/
def Flights (k : JobKey) (w : World E) : Prop :=
  ∀ i th kind, w.threads.lookup i = some th → th.role.kind = some kind →
    ∃ st, ActConduct th.job kind th.prog st ∧ (th.job = k → kind.ends = true → Flight k w i st)

theorem resume_closed {p : Go E (Finish E)} (hp : Prog.Results (Closable k w) p) (ht : t ∈ (w.resume cfg p).closed) :
    t ∈ w.closed ∨ t < w.nextTid ∧ ((∀ th, w.threads.lookup t = some th → th.job ≠ k) ∨
      k ∉ (w.resume cfg p).core.running ∧ (w.resume cfg p).busy = none) := by
  cases p with
  | call => exact .inl ht
  | ret fin =>
    obtain ⟨-, hb, -, hclosed, -⟩ := finish_frame cfg w fin
    simp only [resume, hclosed] at ht
    rcases mem_append.1 ht with hnew | hold
    · refine .inr ⟨hp.1 t hnew, hp.2.imp (fun h => (h t hnew).2 id) fun hout => ⟨fun hin => hout.1 ?_, hb⟩⟩
      obtain ⟨_, hl⟩ := (mem_iff_lookup _ _).1 hin
      rcases finish_entries cfg w fin hl with ⟨ri₀, hl₀, -⟩ | ⟨r, hr, -⟩
      · exact (mem_iff_lookup _ _).2 ⟨ri₀, hl₀⟩
      · rw [hout.2] at hr
        cases hr
    · exact .inl hold

/-- a channel that a step closes is not that of an action on `k`, or the job is still -/
theorem step_closed (htrack : Tracked cfg k w) (hhook : cfg.hook = true) (s : Step) (ht : t ∈ (step cfg w s).closed) :
    t ∈ w.closed ∨ t < w.nextTid ∧
      ((∀ th, w.threads.lookup t = some th → th.job ≠ k) ∨ Still k False (step cfg w s)) := by
  have hnext := htrack.step hhook s
  have hidle : k ∉ (step cfg w s).core.running ∧ (step cfg w s).busy = none → Still k False (step cfg w s) := by
    rintro ⟨hk, hb⟩
    refine ⟨fun ri hl => absurd ((mem_iff_lookup _ _).2 ⟨ri, hl⟩) hk, hnext.starts.noStart hnext.single hk,
      fun p hp => ?_⟩
    rw [hb] at hp
    cases hp
  suffices h : t ∈ w.closed ∨ t < w.nextTid ∧ ((∀ th, w.threads.lookup t = some th → th.job ≠ k) ∨
      k ∉ (step cfg w s).core.running ∧ (step cfg w s).busy = none) from h.imp_right fun h => ⟨h.1, h.2.imp_right hidle⟩
  have hmove := step_move cfg w s
  clear hidle hnext
  generalize step cfg w s = w' at hmove ht
  cases hmove with
  | idle | tool => exact .inl ht
  | call _ ev =>
    simp only [(submit_frame w ev).2.2.2.1] at ht
    exact .inl ht
  | take ev rest hb he => exact resume_closed (htrack.numbered.took cfg hb he).2 ht
  | sweep =>
    refine resume_closed ((sweepExpired_finish cfg w.core).mono fun fin hfin => ?_) ht
    unfold Closable
    rw [hfin.2]
    exact ⟨fun t ht => absurd ht not_mem_nil, .inl fun t ht => absurd ht not_mem_nil⟩
  | core ch c f r w₁ hb hx =>
    obtain ⟨hcore, hthreads, htid, -, hclosed⟩ := exec_frame hx
    have hgrow : ∀ fin, Closable k w fin → Closable k w₁ fin :=
      fun fin hfin => hfin.grow (Grows.of_threads hthreads htid.ge) hcore
    rw [← hclosed, ← hthreads, ← htid]
    exact resume_closed (Prog.Results.mono hgrow (htrack.numbered.busy _ hb r)) ht
  | thread i ch job role c f r w₁ ht' hx =>
    rw [(thread_frame hx k _ _).closed] at ht
    exact .inl ht

/-- a step keeps what the actions in flight rely on -/
structure Carries (k : JobKey) (w w' : World E) : Prop where
  closed : ∀ t ∈ w'.closed, t < w.nextTid
  still : w.acting k = true → Still k False w → Still k False w'
  flight : ∀ i th kind st, w.threads.lookup i = some th → th.role.kind = some kind → th.job = k → kind.ends = true →
    Flight k w i st → Flight k w' i st

theorem GivesWay.spares (h : GivesWay k w s = true) (hact : w.acting k = true) : Spares k w s := by
  rintro ev rest rfl hb he
  simpa [GivesWay, hb, he, hact] using h

theorem step_carries (htrack : Tracked cfg k w) (hhook : cfg.hook = true) (hway : GivesWay k w s = true) :
    Carries k w (step cfg w s) := by
  have hstill : w.acting k = true → Still k False w → Still k False (step cfg w s) :=
    fun hact h => h.step htrack False.elim (.inr (GivesWay.spares hway hact))
  refine ⟨fun t ht => ?_, hstill, fun i th kind st hl hkind hjob hends hflight hnow => ?_⟩
  · rcases step_closed htrack hhook s ht with hold | ⟨hlt, -⟩
    · exact htrack.numbered.closed t hold
    · exact hlt
  · have hact := acting_of hl hjob hkind hends
    rcases hnow with hin | hfree
    · rcases step_closed htrack hhook s hin with hold | ⟨-, hother | hdone⟩
      · exact hstill hact (hflight (.inl hold))
      · exact absurd hjob (hother th hl)
      · exact hdone
    · exact hstill hact (hflight (.inr hfree))

/-- an action that has just started -/
theorem Flight.start {w' : World E} (h : Carries k w w') (hi : w.nextTid ≤ i) : Flight k w' i .start := by
  rintro (hin | hfree)
  · exact absurd (h.closed i hin) (Nat.not_lt.2 hi)
  · cases hfree

/-- the end of a handler starts actions only as policy actions -/
theorem Flights.resume (h : Flights k w) (w₀ : World E) (hhook : cfg.hook = true) (hth : w₀.threads = w.threads)
    (htid : w₀.nextTid = w.nextTid) {p : Go E (Finish E)} (hcarry : Carries k w (w₀.resume cfg p)) :
    Flights k (w₀.resume cfg p) := by
  have hold : ∀ i th kind, w.threads.lookup i = some th → th.role.kind = some kind →
      ∃ st, ActConduct th.job kind th.prog st ∧ (th.job = k → kind.ends = true → Flight k (w₀.resume cfg p) i st) := by
    intro i th kind hl hkind
    obtain ⟨st, hconduct, hflight⟩ := h i th kind hl hkind
    exact ⟨st, hconduct, fun hjob hends => hcarry.flight i th kind st hl hkind hjob hends (hflight hjob hends)⟩
  intro i th kind hl hkind
  cases p with
  | call => exact hold i th kind (hth ▸ hl) hkind
  | ret fin =>
    rcases (finish_threads cfg w₀ fin).2 i th hl with hl₀ | ⟨hge, -, ⟨r, -, rfl⟩ | ⟨k', req, q, -, rfl⟩⟩
    · exact hold i th kind (hth ▸ hl₀) hkind
    · cases hkind
    · obtain rfl : req.kind = kind := Option.some.inj hkind
      refine ⟨.start, ?_, fun _ _ => Flight.start hcarry (htid ▸ hge)⟩
      simp only [applyPolicy, hhook]
      exact applyAction_conduct (α := ℤ × List (ULog E)) q k' req fun r st => ⟨rfl, fun _ _ => trivial⟩

variable {f : c.Resp → Go E (ℤ × List (ULog E))}

/-- an action that moves to where it may write: it did not ask the core, or its wait is over -/
theorem Flight.moved (htrack : Tracked cfg k w) (hhand : InHand k w) {role : Role} {w₁ : World E}
    (ht : w.threads.lookup i = some ⟨k, role, .call c f⟩) (hx : w.exec i ch c = some (r, w₁))
    (hway : GivesWay k w (.thread i ch) = true) (hkind : role.kind = some kind) (hends : kind.ends = true) {st : Stage}
    (hc : (actProtocol E k kind).allowed st c) (hflight : Flight k w i st)
    (hfree : ((actProtocol E k kind).next st c r).free = true) : Still k False w := by
  simp only [GivesWay, ht, hkind, Option.isNone_some, Option.any_some, hends, ne_eq, not_true_eq_false, decide_false,
    Bool.or_false, Bool.false_or, Bool.not_true] at hway
  cases c with
  | get k' =>
    obtain ⟨-, rfl⟩ := hc
    cases hx
    cases hg : w.q.coll.get k' with
    | none =>
      rw [hg] at hfree
      cases hfree
    | some ad =>
      rw [hg] at hfree
      have hstatus : decide (ad.int0 .jobStatus = statusRunning) = false := by
        cases hd : decide (ad.int0 .jobStatus = statusRunning) with
        | false => rfl
        | true =>
          simp only [actProtocol, hd] at hfree
          cases hfree
      simp only [Store.isRunning, hg, Option.any_some, hstatus, Bool.false_or] at hway
      exact settled_still htrack hhand hway
  | await =>
    simp only [exec] at hx
    split_ifs at hx with hlate hin
    · simp only [hlate, Bool.not_true, Bool.false_or] at hway
      exact settled_still htrack hhand hway
    · exact hflight (.inl hin)
  | append =>
    refine hflight (.inr ?_)
    rcases hc.2.2 with rfl | rfl <;> rfl
  | teardown | put | delete | submit => cases hfree
  | _ => exact hflight (.inr hfree)

theorem Flights.step (h : Flights k w) (htrack : Tracked cfg k w) (hhand : InHand k w) (hhook : cfg.hook = true)
    (hway : GivesWay k w s = true) : Flights k (step cfg w s) := by
  have hcarry := step_carries htrack hhook hway
  have hmove := step_move cfg w s
  generalize World.step cfg w s = w' at hmove hcarry
  have hold : ∀ i th kind, w.threads.lookup i = some th → th.role.kind = some kind →
      ∃ st, ActConduct th.job kind th.prog st ∧ (th.job = k → kind.ends = true → Flight k w' i st) := by
    intro i th kind hl hkind
    obtain ⟨st, hconduct, hflight⟩ := h i th kind hl hkind
    exact ⟨st, hconduct, fun hjob hends => hcarry.flight i th kind st hl hkind hjob hends (hflight hjob hends)⟩
  cases hmove with
  | idle => exact h
  | tool k' req =>
    intro i th kind hl hkind
    simp only [spawn, lookup_insert_ite] at hl
    split_ifs at hl with hi
    · obtain rfl := Option.some.inj hl
      obtain rfl : req.kind = kind := Option.some.inj hkind
      refine ⟨.start, ?_, fun _ _ => Flight.start hcarry hi.ge⟩
      rw [hhook]
      exact tool_conduct w.q k' req
    · exact hold i th kind hl hkind
  | call _ ev =>
    intro i th kind hl hkind
    simp only [(submit_frame w ev).2.1] at hl
    exact hold i th kind hl hkind
  | take ev rest => exact h.resume (took cfg w ev rest) hhook rfl rfl hcarry
  | sweep => exact h.resume _ hhook rfl rfl hcarry
  | core ch c f r w₁ hb hx => exact h.resume w₁ hhook (exec_frame hx).2.1 (exec_frame hx).2.2.1 hcarry
  | thread i ch job role c f r w₁ ht hx =>
    intro j th kind hl hkind
    rcases thread_threads hx _ _ hl with ⟨-, hl₀⟩ | ⟨rfl, rfl⟩
    · exact hold j th kind hl₀ hkind
    · obtain ⟨_, hconduct, hflight⟩ := h j _ kind ht hkind
      refine ⟨_, hconduct.2 r trivial, fun hjob hends hnow => ?_⟩
      obtain rfl : job = k := hjob
      refine hcarry.still (acting_of ht rfl hkind hends) ?_
      rcases hnow with hin | hfree
      · rw [(thread_frame hx job _ _).closed] at hin
        exact hflight rfl hends (.inl hin)
      · exact Flight.moved htrack hhand ht hx hway hkind hends hconduct.1 (hflight rfl hends) hfree

/-! ## Holds and removals that took place -/

omit [ClassAdLib E] in
theorem held_observe (w : World E) (o : Obs) : (w.observe o).held k = Obs.holds k (w.held k) o := by
  simp [held, observe]

omit [ClassAdLib E] in
theorem removed_observe (w : World E) (o : Obs) : (w.observe o).removed k = (w.removed k || Obs.removes k o) := by
  simp [removed, observe]

omit [ClassAdLib E] in
theorem exec_lookup (hx : w.exec t ch c = some (r, w'))
    (hc : c.touches k = false) : w'.q.coll.lookup k = w.q.coll.lookup k := by
  cases c with
  | put =>
    simp only [exec] at hx
    split_ifs at hx <;> cases hx
    · exact (Store.lookup_put _ _ _ _).trans (if_neg fun he => of_decide_eq_false hc he.symm)
    · rfl
  | delete =>
    cases hx
    exact (Store.lookup_delete _ _ _).trans (if_neg fun he => of_decide_eq_false hc he.symm)
  | append | await =>
    simp only [exec] at hx
    split_ifs at hx <;> cases hx <;> rfl
  | teardown | submit =>
    cases hx
    rw [(submit_frame w _).2.2.2.2]
  | _ => cases hx; rfl

omit [ClassAdLib E] in
/-- only the writes of an action on `k` count -/
theorem exec_marks (hx : w.exec t ch c = some (r, w'))
    (hc : c.touches k = false ∨ w.actor t = none) : w'.held k = w.held k ∧ w'.removed k = w.removed k := by
  have hsubmit : ∀ ev, (w.submit ev).held k = w.held k ∧ (w.submit ev).removed k = w.removed k := by
    intro ev
    simp [held, removed, submit_trace]
  cases c with
  | put k' =>
    simp only [exec] at hx
    split_ifs at hx <;> cases hx
    · refine ⟨(held_observe _ _).trans ?_, (removed_observe _ _).trans (Bool.or_false _)⟩
      rcases hc with hc | hnone
      · have hne : k' ≠ k := of_decide_eq_false hc
        cases w.actor t with
        | none => rfl
        | some kind => cases kind <;> simp [Obs.holds, hne] <;> rfl
      · rw [hnone]
        rfl
    · exact ⟨held_observe _ _, (removed_observe _ _).trans (Bool.or_false _)⟩
  | delete k' =>
    cases hx
    refine ⟨held_observe _ _, (removed_observe _ _).trans ?_⟩
    rcases hc with hc | hnone
    · have hne : k' ≠ k := of_decide_eq_false hc
      cases w.actor t <;> simp [Obs.removes, hne] <;> rfl
    · rw [hnone]
      exact Bool.or_false _
  | get =>
    cases hx
    exact ⟨held_observe _ _, (removed_observe _ _).trans (Bool.or_false _)⟩
  | append =>
    simp only [exec] at hx
    split_ifs at hx <;> cases hx <;> exact ⟨held_observe _ _, (removed_observe _ _).trans (Bool.or_false _)⟩
  | await =>
    simp only [exec] at hx
    split_ifs at hx <;> cases hx <;> exact ⟨rfl, rfl⟩
  | teardown | submit => cases hx; exact hsubmit _
  | _ => cases hx; exact ⟨rfl, rfl⟩

/-- after a hold the job is aside, after a removal gone, and the core has done with it -/
structure Won (k : JobKey) (w : World E) : Prop where
  stays : w.held k = true ∨ w.removed k = true → w.q.coll.aside k ∧ Still k True w
  gone : w.removed k = true → w.q.coll.lookup k = none

/-- nothing of `k` takes place -/
structure Same (k : JobKey) (w w' : World E) : Prop where
  held : w'.held k = w.held k
  removed : w'.removed k = w.removed k
  lookup : w'.q.coll.lookup k = w.q.coll.lookup k

omit [ClassAdLib E] in
theorem Same.trans {w'' : World E} (h : Same k w w') (h' : Same k w' w'') : Same k w w'' :=
  ⟨h'.held.trans h.held, h'.removed.trans h.removed, h'.lookup.trans h.lookup⟩

omit [ClassAdLib E] in
theorem exec_same (hx : w.exec t ch c = some (r, w')) (hc : c.touches k = false) : Same k w w' :=
  ⟨(exec_marks hx (.inl hc)).1, (exec_marks hx (.inl hc)).2, exec_lookup hx hc⟩

theorem resume_same (cfg : SchedConfig E) (w : World E) (p : Go E (Finish E)) : Same k w (w.resume cfg p) := by
  cases p with
  | call => exact ⟨rfl, rfl, rfl⟩
  | ret fin =>
    have htrace := (finish_trace cfg w fin).1
    refine ⟨?_, ?_, by rw [resume, (finish_frame cfg w fin).1]⟩
    · simp [resume, held, htrace, Obs.holds]
    · simp [resume, removed, htrace, Obs.removes]

omit [ClassAdLib E] in
theorem resumeThread_same (w : World E) (i : ℕ) (th : Thread E) (p : Go E (ℤ × List (ULog E))) :
    Same k w (w.resumeThread i th p) := by
  cases p with
  | call => exact ⟨rfl, rfl, rfl⟩
  | ret => exact ⟨held_observe _ _, (removed_observe _ _).trans (Bool.or_false _), rfl⟩

theorem Won.same (h : Won k w) (hsame : Same k w w')
    (hstill : w.q.coll.aside k → Still k True w → Still k True w') : Won k w' := by
  refine ⟨fun hmark => ?_, fun hr => ?_⟩
  · rw [hsame.held, hsame.removed] at hmark
    obtain ⟨haside, hs⟩ := h.stays hmark
    refine ⟨fun own hl => haside own ?_, hstill haside hs⟩
    rw [← hsame.lookup]
    exact hl
  · rw [hsame.lookup]
    exact h.gone (hsame.removed ▸ hr)

/-- the write of an action on `k`: a hold or removal finds the job still, and no job that is gone is written -/
theorem Won.write (h : Won k w) {role : Role} {w₁ : World E}
    (ht : w.threads.lookup i = some ⟨k, role, .call c f⟩) (hx : w.exec i ch c = some (r, w₁))
    (hway : GivesWay k w (.thread i ch) = true) (hkind : role.kind = some kind) {st : Stage}
    (hc : (actProtocol E k kind).allowed st c) (htouch : c.touches k = true)
    (hflight : kind.ends = true → Flight k w i st) (hsame : Same k w₁ w')
    (hstill : ∀ aside : Prop, (aside → w.q.coll.aside k) → Still k aside w → Still k aside w') : Won k w' := by
  have hactor : w.actor i = some kind := by simp [actor, ht, hkind]
  cases c with
  | put k' ad =>
    obtain rfl : k' = k := of_decide_eq_true htouch
    simp only [exec, hactor] at hx
    split_ifs at hx with hok <;> cases hx
    · simp only [GivesWay, ht, hkind, Option.isNone_some, hok, ne_eq, not_true_eq_false, decide_false, Bool.or_false,
        Bool.false_or, Bool.not_true] at hway
      have hnot : w.removed k' = false := by
        refine Bool.eq_false_iff.2 fun hr => ?_
        rw [h.gone hr] at hway
        cases hway
      have hremoved : w'.removed k' = false := by
        rw [hsame.removed, removed_observe]
        exact (Bool.or_false _).trans hnot
      rcases hc.2 with rfl | ⟨rfl, hst, hstatus⟩
      · have hheld : w'.held k' = false := by
          rw [hsame.held, held_observe]
          simp [Obs.holds]
        exact ⟨fun hmark => by simp [hheld, hremoved] at hmark, fun hr => by simp [hremoved] at hr⟩
      · have hfree : st.free = true := by rcases hst with rfl | rfl <;> rfl
        have hafter := hstill False False.elim (hflight rfl (.inr hfree))
        refine ⟨fun _ => ⟨fun own hl => ?_, hafter.weaken⟩, fun hr => by simp [hremoved] at hr⟩
        rw [hsame.lookup] at hl
        have hput : (w.q.coll.put k' ad).lookup k' = some own := hl
        rw [Store.lookup_put, if_pos rfl] at hput
        rw [← Option.some.inj hput]
        exact hstatus
    · have hfailed : Same k' w (w.observe (.put i k' false (some kind))) :=
        ⟨held_observe _ _, (removed_observe _ _).trans (Bool.or_false _), rfl⟩
      exact h.same (hfailed.trans hsame) fun haside => hstill True fun _ => haside
  | delete k' =>
    obtain ⟨rfl, rfl, hremoves⟩ := hc
    cases hx
    have hgone : w'.q.coll.lookup k' = none := by
      rw [hsame.lookup]
      exact (Store.lookup_delete _ _ _).trans (if_pos rfl)
    have hends : kind.ends = true := by simp [ActionKind.ends, hremoves]
    have hafter := hstill False False.elim (hflight hends (.inr rfl))
    refine ⟨fun _ => ⟨fun own hl => ?_, hafter.weaken⟩, fun _ => hgone⟩
    rw [hgone] at hl
    cases hl
  | _ => cases htouch

/-- **One step.** -/
theorem Won.step (h : Won k w) (htrack : Tracked cfg k w) (hflights : Flights k w)
    (hway : GivesWay k w s = true) : Won k (step cfg w s) := by
  have hstill : ∀ aside : Prop, (aside → w.q.coll.aside k) → aside ∨ Spares k w s → Still k aside w →
      Still k aside (World.step cfg w s) := fun aside haside hs hold => hold.step htrack haside hs
  have hmove := step_move cfg w s
  generalize World.step cfg w s = w' at hmove hstill
  have hkeep : w.q.coll.aside k → Still k True w → Still k True w' := fun haside =>
    hstill True (fun _ => haside) (.inl trivial)
  cases hmove with
  | idle => exact h
  | tool => exact h.same ⟨rfl, rfl, rfl⟩ hkeep
  | call _ ev n os hev hn hch hos =>
    refine h.same ⟨?_, ?_, by simp only [(submit_frame w ev).2.2.2.2]⟩ hkeep
    · rcases hos with rfl | ⟨m, -, rfl⟩ <;> simp [held, Obs.holds]
    · rcases hos with rfl | ⟨m, -, rfl⟩ <;> simp [removed, Obs.removes]
  | take ev rest =>
    have htook : Same k w (took cfg w ev rest) :=
      ⟨held_observe _ _, (removed_observe _ _).trans (Bool.or_false _), rfl⟩
    exact h.same (htook.trans (resume_same cfg _ _)) hkeep
  | sweep =>
    have hswept : Same k w { w with core := (sweepExpired cfg w.core).1 } := ⟨rfl, rfl, rfl⟩
    exact h.same (hswept.trans (resume_same cfg _ _)) hkeep
  | core ch c f r w₁ hb hx =>
    have hactor : w.actor 0 = none := by simp [actor, htrack.numbered.zero.1]
    obtain ⟨hheld, hremoved⟩ := exec_marks (k := k) hx (.inr hactor)
    have hafter : Same k w₁ (w₁.resume cfg (f r)) := resume_same cfg _ _
    by_cases hmark : w.held k = true ∨ w.removed k = true
    · have hc : c.touches k = false := ((h.stays hmark).2.handler _ hb).1
      exact h.same ((exec_same hx hc).trans hafter) hkeep
    · -- a job that was neither held nor removed the core may write
      rw [← hheld, ← hremoved, ← hafter.held, ← hafter.removed] at hmark
      exact ⟨fun hm => absurd hm hmark, fun hr => absurd (.inr hr) hmark⟩
  | thread i ch job role c f r w₁ ht hx =>
    have hafter := resumeThread_same (k := k) w₁ i ⟨job, role, .call c f⟩ (f r)
    have hspares : Spares k w (.thread i ch) := fun ev rest hs => (nomatch hs)
    cases htouch : c.touches k with
    | false => exact h.same ((exec_same hx htouch).trans hafter) hkeep
    | true =>
      have hrole : role ≠ .run := by
        rintro rfl
        rcases RunConduct.command (htrack.single.threads i _ ht).1 with ⟨_, rfl, -⟩ | ⟨m, rfl⟩ | rfl | rfl <;>
          cases htouch
      have hown : c.own job := (htrack.own i _ ht hrole).1
      obtain rfl : job = k := by
        cases c with
        | put | delete => exact hown.symm.trans (of_decide_eq_true htouch)
        | _ => cases htouch
      obtain ⟨kind, hkind⟩ : ∃ kind, role.kind = some kind := by
        cases role with
        | run => exact absurd rfl hrole
        | _ => exact ⟨_, rfl⟩
      obtain ⟨_, hconduct, hflight⟩ := hflights i _ kind ht hkind
      exact h.write ht hx hway hkind hconduct.1 htouch (hflight rfl) hafter fun aside haside =>
        hstill aside haside (.inr hspares)

/-- **A hold or removal that succeeds wins over the run,** along every execution that gives way to it: until a release
succeeds the job is Held, and after a removal an entry of the job is one of a run that has been vacated and cancelled.
-/
theorem hold_and_remove_win (cfg : SchedConfig E) (hhook : cfg.hook = true) (q : Queue E) (hq : q.coll.Keyed)
    (k : JobKey)
    (steps : List Step) (hs : Runs.Meets (step cfg) (fun w s => GivesWay k w s = true) (start q) steps) :
    let w := run cfg (start q) steps
    (w.held k = true → ∀ ad, w.q.coll.get k = some ad → ad.int0 .jobStatus = statusHeld) ∧
      (w.removed k = true → ∀ ri, w.core.running.lookup k = some ri → ri.vacated = true ∧ ri.cancelled = true) := by
  let I : World E → Prop := fun w => Tracked cfg k w ∧ InHand k w ∧ Flights k w ∧ Won k w
  have hstart : I (start q) := by
    refine ⟨start_tracked cfg k hq, fun _ p hp => (by cases hp), fun i th kind hl => by simp [start] at hl, ?_⟩
    exact ⟨fun hmark => by simp [held, removed, start] at hmark, fun hr => by cases hr⟩
  have hrun : I (run cfg (start q) steps) := by
    refine Runs.foldl_inv_of (P := I) (fun w s hway hI => ?_) hstart hs
    obtain ⟨htrack, hhand, hflights, hwon⟩ := hI
    exact ⟨htrack.step hhook s, hhand.step htrack s, hflights.step htrack hhand hhook hway,
      hwon.step htrack hflights hway⟩
  obtain ⟨-, -, -, hwon⟩ := hrun
  exact ⟨fun hheld ad hget => (hwon.stays (.inl hheld)).1.get hget, fun hremoved =>
    (hwon.stays (.inr hremoved)).2.entry⟩

end

/-! ## The first job of `aliceQueue` -/

/-- the owner acts on the job while it runs, gives up waiting for its teardown, and then the run ends -/
def endedLate (kind : ActionKind) : List Step :=
  started ++ [.tool ⟨1, 0⟩ (aliceRequest kind)] ++ List.replicate 3 (.thread 2 smooth) ++
    [.take, .thread 2 { smooth with timeout := true }] ++ List.replicate 3 (.thread 2 smooth) ++
    List.replicate 2 (.thread 1 smooth)

theorem late_hold_and_removal_win :
    Runs.Meets (step poolSched) (fun w s =>
      GivesWay ⟨1, 0⟩ w s = true) (start aliceQueue) (endedLate .hold ++ [.take]) ∧
      (let w := run poolSched (start aliceQueue) (endedLate .hold ++ [.take])
       w.held ⟨1, 0⟩ = true ∧ ∀ ad, w.q.coll.get ⟨1, 0⟩ = some ad → ad.int0 .jobStatus = statusHeld) ∧
      Runs.Meets (step poolSched) (fun w s => GivesWay ⟨1, 0⟩ w s = true) (start aliceQueue) (endedLate .remove) ∧
      (let w := run poolSched (start aliceQueue) (endedLate .remove)
       w.removed ⟨1, 0⟩ = true ∧ ∀ ri, w.core.running.lookup ⟨1, 0⟩ = some ri → ri.vacated = true ∧
         ri.cancelled = true) := by
  have hkeyed : aliceQueue.coll.Keyed := fun k ad h => Sys.reachable_wellKeyed aliceQueue_reachable h
  obtain ⟨hhold, hheld⟩ : Runs.Meets (step poolSched) (fun w s => GivesWay ⟨1, 0⟩ w s = true) (start aliceQueue)
        (endedLate .hold ++ [.take]) ∧
      (run poolSched (start aliceQueue) (endedLate .hold ++ [.take])).held ⟨1, 0⟩ = true := by decide +kernel
  obtain ⟨hremove, hremoved⟩ : Runs.Meets (step poolSched) (fun w s => GivesWay ⟨1, 0⟩ w s = true) (start aliceQueue)
        (endedLate .remove) ∧
      (run poolSched (start aliceQueue) (endedLate .remove)).removed ⟨1, 0⟩ = true := by decide +kernel
  refine ⟨hhold, ⟨hheld, ?_⟩, hremove, hremoved, ?_⟩
  · exact (hold_and_remove_win poolSched rfl aliceQueue hkeyed ⟨1, 0⟩ _ hhold).1 hheld
  · exact (hold_and_remove_win poolSched rfl aliceQueue hkeyed ⟨1, 0⟩ _ hremove).2 hremoved

/-- the owner acts on the job when its match has been accepted and its run has not started yet -/
def endedEarly (kind : ActionKind) : List Step :=
  accepted ++ [.tool ⟨1, 0⟩ (aliceRequest kind)] ++ List.replicate 5 (.thread 2 smooth) ++
    List.replicate 2 (.thread 1 smooth) ++ [.take] ++ List.replicate 4 (.core smooth)

/-- the start of the run undoes the hold, and the run of the removed job goes on -/
theorem start_undoes_hold :
    (let w := run poolSched (start aliceQueue) (endedEarly .hold)
     w.held ⟨1, 0⟩ = true ∧ w.q.coll.isRunning ⟨1, 0⟩ = true) ∧
      (let w := run poolSched (start aliceQueue) (endedEarly .remove)
       w.removed ⟨1, 0⟩ = true ∧ w.isLive ⟨1, 0⟩ = true) := by
  decide +kernel

end World

end AccessPoint
