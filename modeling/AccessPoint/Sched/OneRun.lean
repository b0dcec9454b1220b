/-
At most one run of a job (internal/sched/sched.go, `handleMatch`, `handleRecover`, `handleExited`, `handleFailed`,
`handleReconnectFailed`).

A run is known by its goroutine and, once that has ended, by its terminal event in the channel. The core enters a run
into the registry before it starts the goroutine and takes it out when it takes the terminal event, so the registry
bounds the two together. The steps are those of the schedd (`World.step`) and edits of the queue by anything else, which
leave every ad under its ids.

- `Single`: the invariant; `Single.thread`, `Single.take`, `Single.finish`: a goroutine, an event, the end of a handler.
- `one_run`: in every state of every execution a job has at most one run alive or about to be reaped, only under an
  entry of the registry, and the gauge counts the entries.
-/
import AccessPoint.Sched.Bookkeeping
import AccessPoint.Sched.Conduct
import AccessPoint.Sched.Orderly

namespace AccessPoint

open ClassAdLib KeyMap

section

variable {E : Type}

/-! ## The registry and its gauge -/

namespace Core

/-- the gauge counts the entries -/
def Gauged (core : Core) : Prop := core.gauge = KeyMap.count (fun _ => true) core.running

variable {core : Core}

theorem Gauged.drop (h : core.Gauged) (k : JobKey) : (core.drop k).Gauged := by
  unfold Core.drop
  split_ifs with hk
  · obtain ⟨_, hl⟩ := (mem_iff_lookup _ _).1 hk
    have herase := count_erase (fun _ => true) core.running k
    rw [hl] at herase
    simp only [Option.any_some, if_true] at herase
    simp only [Gauged] at h ⊢
    omega
  · exact h

theorem Gauged.add (h : core.Gauged) {k : JobKey} (hk : k ∉ core.running) (ri : RunInfo) : (core.add k ri).Gauged := by
  have hinsert := count_insert (fun _ => true) core.running k ri
  rw [lookup_none_of_notMem hk] at hinsert
  simp only [Option.any_none, if_true, Bool.false_eq_true, if_false] at hinsert
  simp only [Gauged, Core.add] at h ⊢
  omega

theorem Gauged.mapRuns (h : core.Gauged) (f : JobKey → RunInfo → RunInfo) : (core.mapRuns f).Gauged := by
  simp only [Gauged, Core.mapRuns, count_mapKeys]
  exact h

theorem Gauged.maybeFinishDrain (h : core.Gauged) : core.maybeFinishDrain.1.Gauged := by
  unfold Core.maybeFinishDrain
  split
  · split_ifs <;> exact h
  · exact h

end Core

variable [ClassAdLib E]

theorem Sched.handle_gauged (cfg : SchedConfig E) {core : Core} (h : core.Gauged) (ev : Event) :
    (Sched.handle cfg core ev).1.Gauged := by
  cases ev with
  | evExited k | evFailed k | evReconnectFailed k =>
    exact (h.drop k).maybeFinishDrain
  | evMatch =>
    simp only [handle, handleMatch]
    split_ifs <;> exact h
  | evStarted => exact h.mapRuns _
  | evTeardown =>
    simp only [handle, handleTeardown]
    split_ifs
    · exact h.mapRuns _
    · exact h
  | evDrain done =>
    have h' : ({ core with draining := true, drainDone := some done } : Core).Gauged := h
    simp only [handle, handleDrain]
    split_ifs
    · exact h
    · exact h'.mapRuns _
    · exact h'.mapRuns _
  | evReschedule | evRecover | evPolicyRemove | evPolicyHold | evPolicyRelease | evPolicyDone => exact h

/-! ## The invariant -/

/-- a run keeps to its conduct, any other goroutine writes ads under their ids and reports no run -/
def Thread.Sound (th : Thread E) : Prop :=
  match th.role with
  | .run => RunConduct th.job th.prog
  | _ => Orderly (fun _ => True) th.prog

namespace World

omit [ClassAdLib E] in
/-- the live runs of `k` -/
def runsOf (w : World E) (k : JobKey) : ℕ := KeyMap.count (fun th => th.job = k && th.role = .run) w.threads

omit [ClassAdLib E] in
/-- the terminal events of `k` in the channel -/
def endsOf (w : World E) (k : JobKey) : ℕ := w.events.countP (Event.terminalFor k)

structure Single (cfg : SchedConfig E) (w : World E) : Prop where
  runs : ∀ k, w.runsOf k + w.endsOf k ≤ 1 ∧ (0 < w.runsOf k + w.endsOf k → k ∈ w.core.running)
  gauge : w.core.Gauged
  threads : ∀ i th, w.threads.lookup i = some th → th.Sound ∧ i < w.nextTid
  busy : ∀ p, w.busy = some p → Orderly (fun fin : Finish E => Sched.FreshRuns cfg w.core fin.runs) p
  keyed : w.q.coll.Keyed

/-- fewer are within the same bound -/
theorem Single.runs_le {cfg : SchedConfig E} {w : World E} (h : Single cfg w) {k : JobKey} {n : ℕ}
    (hn : n ≤ w.runsOf k + w.endsOf k) : n ≤ 1 ∧ (0 < n → k ∈ w.core.running) :=
  ⟨hn.trans (h.runs k).1, fun hpos => (h.runs k).2 (hpos.trans_le hn)⟩

theorem start_single (cfg : SchedConfig E) {q : Queue E} (hq : q.coll.Keyed) : Single cfg (start q) where
  runs := fun k => by simp [start, runsOf, endsOf, count, Core.init]
  gauge := rfl
  threads := fun i th hl => by simp [start] at hl
  busy := fun p hp => by simp [start] at hp
  keyed := hq

omit [ClassAdLib E] in
theorem endsOf_submit (w : World E) (ev : Event) (k : JobKey) :
    (w.submit ev).endsOf k ≤ w.endsOf k + if ev.terminalFor k then 1 else 0 := by
  unfold submit endsOf
  split_ifs <;> simp_all [List.countP_append]

variable {cfg : SchedConfig E} {w w' : World E} {ch : Choice} {c : Cmd E}

/-- what a command leaves of the store and the channel, for a command of the protocol -/
theorem exec_orderly {t : ℕ} {r : c.Resp} (h : w.exec t ch c = some (r, w'))
    (hkeyed : w.q.coll.Keyed) (hput : ∀ k ad, c = .put k ad → Sys.KeyedAt k ad) :
    w'.q.coll.Keyed ∧ (orderlyProtocol E).expects () c r := by
  have hperform := Store.perform_orderly hkeyed ch hput
  rwa [exec_perform h] at hperform

omit [ClassAdLib E] in
theorem exec_endsOf {t : ℕ} {r : c.Resp} (h : w.exec t ch c = some (r, w')) (k : JobKey) :
    w'.endsOf k ≤ w.endsOf k + match c with
      | .submit ev => if ev.terminalFor k then 1 else 0
      | _ => 0 := by
  have hev := exec_events h
  cases c with
  | submit ev =>
    have hle := endsOf_submit w ev k
    simp only [eventOf] at hev
    simp only [endsOf, hev] at hle ⊢
    exact hle
  | teardown k' =>
    have hle := endsOf_submit w (.evTeardown k' (some t)) k
    simp only [eventOf] at hev
    simp only [endsOf, hev] at hle ⊢
    exact hle
  | _ =>
    simp only [eventOf] at hev
    simp only [endsOf, hev]
    exact le_refl _

/-! ## Goroutines -/

theorem Single.spawn (h : Single cfg w) {th : Thread E} (hrole : th.role ≠ .run) (hth : th.Sound) :
    Single cfg (w.spawn th) := by
  have hfresh : w.threads.lookup w.nextTid = none := by
    by_contra hne
    obtain ⟨th', hl⟩ := Option.ne_none_iff_exists'.1 hne
    exact absurd (h.threads _ _ hl).2 (lt_irrefl _)
  refine ⟨fun k => ?_, h.gauge, fun i th' hl => ?_, h.busy, h.keyed⟩
  · have hcount := count_insert (fun th : Thread E => th.job = k && th.role = .run) w.threads w.nextTid th
    rw [hfresh] at hcount
    simp only [Option.any_none, hrole, decide_false, Bool.and_false, Bool.false_eq_true, if_false] at hcount
    refine h.runs_le ?_
    simp only [runsOf, endsOf, World.spawn]
    omega
  · simp only [World.spawn, lookup_insert_ite] at hl
    split_ifs at hl with hi
    · cases hl
      exact ⟨hth, hi ▸ Nat.lt_succ_self _⟩
    · exact ⟨(h.threads i th' hl).1, Nat.lt_succ_of_lt (h.threads i th' hl).2⟩

/-- a goroutine performs a command: it reports no run, or it is a run that reports its end and ends -/
theorem Single.thread (h : Single cfg w) {i : ℕ} {job : JobKey} {role : Role}
    {f : c.Resp → Go E (ℤ × List (ULog E))} {r : c.Resp} {w₁ : World E}
    (ht : w.threads.lookup i = some ⟨job, role, .call c f⟩) (hx : w.exec i ch c = some (r, w₁)) :
    Single cfg (w₁.resumeThread i ⟨job, role, .call c f⟩ (f r)) := by
  obtain ⟨hcore, hthreads, htid, hbusy, -⟩ := exec_frame hx
  obtain ⟨hsound, hi⟩ := h.threads i _ ht
  have hends := exec_endsOf hx
  -- what the command may be, and what the goroutine becomes
  have hput : ∀ k ad, c = .put k ad → Sys.KeyedAt k ad := by
    rintro k ad rfl
    cases role with
    | run => rcases RunConduct.command hsound with ⟨ev, hc, -⟩ | ⟨m, hc⟩ | hc | hc <;> cases hc
    | tool | policy => exact hsound.1
  obtain ⟨hkeyed, hexpects⟩ := exec_orderly hx h.keyed hput
  have hnext : (∀ k, w₁.endsOf k ≤ w.endsOf k) ∧ Thread.Sound ⟨job, role, f r⟩ ∨
      role = .run ∧ (∃ a, f r = .ret a) ∧ ∀ k, w₁.endsOf k ≤ w.endsOf k + if job = k then 1 else 0 := by
    cases role with
    | run =>
      rcases RunConduct.step hsound r with ⟨ev, rfl, hev, hret⟩ | ⟨hgo, hev⟩
      · refine .inr ⟨rfl, hret, fun k => (hends k).trans (Nat.add_le_add_left ?_ _)⟩
        dsimp only
        split_ifs with hk hjob
        · exact le_refl _
        · exact absurd (Event.ofRun_inj (Event.ofRun_of_terminalFor hev) (Event.ofRun_of_terminalFor hk)) hjob
        · exact Nat.zero_le _
        · exact le_refl _
      · refine .inl ⟨fun k => ?_, hgo⟩
        have hle := hends k
        cases c with
        | submit ev =>
          obtain ⟨hof, hnot⟩ := hev ev rfl
          dsimp only at hle
          split_ifs at hle with hk
          · obtain rfl := Event.ofRun_inj hof (Event.ofRun_of_terminalFor hk)
            rw [hnot] at hk
            cases hk
          · exact hle
        | _ => exact hle
    | tool | policy =>
      refine .inl ⟨fun k => ?_, hsound.2 r hexpects⟩
      have hle := hends k
      cases c with
      | submit ev =>
        have hnot : ev.terminalFor k = false := hsound.1 k
        simp only [hnot] at hle
        exact hle
      | _ => exact hle
  -- the count of goroutines, whether it goes on or ends
  have hcount : ∀ k, count (fun th : Thread E => th.job = k && th.role = .run) (w.threads.erase i) +
      (if job = k ∧ role = .run then 1 else 0) = w.runsOf k := by
    intro k
    have herase := count_erase (fun th : Thread E => th.job = k && th.role = .run) w.threads i
    rw [ht] at herase
    simpa [runsOf] using herase
  cases hfr : f r with
  | ret =>
    refine ⟨fun k => ?_, ?_, fun i' th' hl' => ?_, ?_, hkeyed⟩
    · have hk := hcount k
      simp only [resumeThread, World.observe, hcore]
      refine h.runs_le ?_
      simp only [runsOf, endsOf, hthreads] at hk ⊢
      rcases hnext with ⟨hle, -⟩ | ⟨rfl, -, hle⟩
      · have hevents := hle k
        simp only [endsOf] at hevents
        omega
      · have hevents := hle k
        simp only [endsOf, and_true] at hevents hk
        omega
    · simp only [resumeThread, World.observe, hcore]
      exact h.gauge
    · simp only [resumeThread, World.observe, hthreads] at hl'
      have hold := h.threads i' th' (lookup_of_erase hl')
      exact ⟨hold.1, by simp only [resumeThread, World.observe, htid]; exact hold.2⟩
    · simp only [resumeThread, World.observe, hbusy, hcore]
      exact h.busy
  | call c' f' =>
    have hgo : (∀ k, w₁.endsOf k ≤ w.endsOf k) ∧ Thread.Sound ⟨job, role, .call c' f'⟩ := by
      rcases hnext with hn | ⟨-, ⟨a, ha⟩, -⟩
      · rwa [hfr] at hn
      · rw [hfr] at ha
        cases ha
    refine ⟨fun k => ?_, ?_, fun i' th' hl' => ?_, ?_, hkeyed⟩
    · have hinsert := count_insert (fun th : Thread E => th.job = k && th.role = .run) w.threads i
        ⟨job, role, .call c' f'⟩
      have hevents := hgo.1 k
      rw [ht] at hinsert
      simp only [resumeThread, hcore]
      refine h.runs_le ?_
      simp only [runsOf, endsOf, hthreads, Option.any_some] at hevents hinsert ⊢
      omega
    · simp only [resumeThread, hcore]
      exact h.gauge
    · simp only [resumeThread, hthreads, lookup_insert_ite] at hl'
      simp only [resumeThread, htid]
      split_ifs at hl' with hi'
      · cases hl'
        exact ⟨hgo.2, hi' ▸ hi⟩
      · exact h.threads i' th' hl'
    · simp only [resumeThread, hbusy, hcore]
      exact h.busy

/-! ## The core -/

/-- a run starts that had no entry -/
theorem Single.startRun (h : Single cfg w) (hb : w.busy = none) {r : NewRun E} (hk : r.key ∉ w.core.running)
    (hr : Sched.IsRun cfg r.key r.prog) : Single cfg (w.startRun r) := by
  have hfresh : w.threads.lookup w.nextTid = none := by
    by_contra hne
    obtain ⟨th', hl⟩ := Option.ne_none_iff_exists'.1 hne
    exact absurd (h.threads _ _ hl).2 (lt_irrefl _)
  refine ⟨fun k => ?_, h.gauge.add hk r.info, fun i th' hl => ?_, fun p hp => ?_, h.keyed⟩
  · have hcount := count_insert (fun th : Thread E => th.job = k && th.role = .run) w.threads w.nextTid
      ⟨r.key, .run, r.prog⟩
    rw [hfresh] at hcount
    simp only [Option.any_none, Bool.false_eq_true, if_false, decide_true, Bool.and_true, decide_eq_true_eq] at hcount
    have hruns := h.runs k
    simp only [runsOf, endsOf, World.startRun, World.spawn, Core.add, AList.mem_insert] at hruns ⊢
    by_cases hkey : k = r.key
    · subst hkey
      have hnone : ¬ 0 < count (fun th : Thread E => th.job = r.key && th.role = .run) w.threads +
          w.events.countP (Event.terminalFor r.key) := fun hpos => hk (hruns.2 hpos)
      simp only [if_true] at hcount
      exact ⟨by omega, fun _ => .inl rfl⟩
    · rw [if_neg fun he => hkey he.symm] at hcount
      exact ⟨by omega, fun hpos => .inr (hruns.2 (by omega))⟩
  · simp only [World.startRun, World.spawn, lookup_insert_ite] at hl
    split_ifs at hl with hi
    · cases hl
      exact ⟨IsRun.conduct hr, hi ▸ Nat.lt_succ_self _⟩
    · exact ⟨(h.threads i th' hl).1, Nat.lt_succ_of_lt (h.threads i th' hl).2⟩
  · simp only [World.startRun, World.spawn, hb] at hp
    cases hp

theorem Single.startRuns (rs : List (NewRun E)) {w : World E} (h : Single cfg w) (hb : w.busy = none)
    (hrs : Sched.FreshRuns cfg w.core rs) : Single cfg (rs.foldl World.startRun w) := by
  induction rs generalizing w with
  | nil => exact h
  | cons r rs ih =>
    obtain ⟨hk, hrun⟩ := hrs.2 r List.mem_cons_self
    obtain ⟨hnot, hnodup⟩ := List.nodup_cons.1 hrs.1
    refine ih (h.startRun hb hk hrun) hb ⟨hnodup, fun r' hr' =>
      ⟨fun hmem => ?_, (hrs.2 r' (List.mem_cons_of_mem r hr')).2⟩⟩
    rcases (AList.mem_insert _).1 hmem with he | hmem
    · exact hnot (List.mem_map.2 ⟨r', hr', he⟩)
    · exact (hrs.2 r' (List.mem_cons_of_mem r hr')).1 hmem

/-- the end of a handler -/
theorem Single.finish (h : Single cfg w) {fin : Finish E} (hfin : Sched.FreshRuns cfg w.core fin.runs) :
    Single cfg (w.finish cfg fin) := by
  have hcore : ∀ k, k ∈ (w.core.mapRuns fun k ri => if k ∈ fin.vacate then Sched.vacateRun ri else ri).running ↔
      k ∈ w.core.running := fun k => Core.mem_mapRuns
  have hend : Single cfg { w with busy := none, closed := fin.close ++ w.closed, ulog := w.ulog ++ fin.ulog
                                  core := w.core.mapRuns fun k ri =>
                                    if k ∈ fin.vacate then Sched.vacateRun ri else ri } := by
    refine ⟨fun k => ?_, h.gauge.mapRuns _, h.threads, fun p hp => (nomatch hp), h.keyed⟩
    exact ⟨(h.runs k).1, fun hpos => (hcore k).2 ((h.runs k).2 hpos)⟩
  have hruns := Single.startRuns fin.runs hend rfl ⟨hfin.1, fun r hr => ⟨fun hk => (hfin.2 r hr).1 ((hcore _).1 hk),
    (hfin.2 r hr).2⟩⟩
  unfold World.finish
  dsimp only
  cases hp : fin.policy with
  | none => exact ⟨hruns.runs, hruns.gauge, hruns.threads, hruns.busy, hruns.keyed⟩
  | some p =>
    have hsound : Thread.Sound ⟨p.1, .policy p.2, applyPolicy cfg (fin.runs.foldl World.startRun { w with
        busy := none, closed := fin.close ++ w.closed, ulog := w.ulog ++ fin.ulog
        core := w.core.mapRuns fun k ri => if k ∈ fin.vacate then Sched.vacateRun ri else ri }).q p.1 p.2⟩ := by
      refine (applyAction_orderly _ cfg.hook p.1 p.2).bind fun r _ => ?_
      exact (Orderly.submit fun _ => rfl).bind fun _ _ => trivial
    have hpolicy := hruns.spawn (by simp) hsound
    exact ⟨hpolicy.runs, hpolicy.gauge, hpolicy.threads, hpolicy.busy, hpolicy.keyed⟩

theorem Single.resume (h : Single cfg w) {p : Go E (Finish E)}
    (hp : Orderly (fun fin : Finish E => Sched.FreshRuns cfg w.core fin.runs) p) : Single cfg (w.resume cfg p) := by
  cases p with
  | ret => exact h.finish hp
  | call => exact ⟨h.runs, h.gauge, h.threads, fun p' hp' => Option.some.inj hp' ▸ hp, h.keyed⟩

/-- the core takes an event: a terminal one leaves with its entry -/
theorem Single.take (h : Single cfg w) {ev : Event} {rest : List Event} (hb : w.busy = none)
    (he : w.events = ev :: rest) :
    Single cfg ({ w with events := rest, core := (Sched.handle cfg w.core ev).1 }.observe (.took ev)) := by
  refine ⟨fun k => ?_, Sched.handle_gauged cfg h.gauge ev, h.threads, fun p hp => ?_, h.keyed⟩
  · have hruns := h.runs k
    simp only [runsOf, endsOf, he, List.countP_cons] at hruns
    simp only [World.observe, runsOf, endsOf]
    cases hterm : ev.terminalFor k with
    | true =>
      simp only [hterm, if_true] at hruns
      exact ⟨by omega, fun hpos => by omega⟩
    | false =>
      simp only [hterm, Bool.false_eq_true, if_false, Nat.add_zero] at hruns
      exact ⟨hruns.1, fun hpos => Sched.handle_keeps cfg w.core ev (hruns.2 hpos) hterm⟩
  · have hnone : (none : Option (Go E (Finish E))) = some p := hb ▸ hp
    cases hnone

/-- the core performs a command -/
theorem Single.exec (h : Single cfg w) {f : c.Resp → Go E (Finish E)} {r : c.Resp} {w₁ : World E}
    (hb : w.busy = some (.call c f)) (hx : w.exec 0 ch c = some (r, w₁)) :
    Single cfg w₁ ∧ Orderly (fun fin : Finish E => Sched.FreshRuns cfg w₁.core fin.runs) (f r) := by
  obtain ⟨hcore, hthreads, htid, hbusy, -⟩ := exec_frame hx
  have horderly := h.busy _ hb
  obtain ⟨hkeyed, hexpects⟩ := exec_orderly hx h.keyed fun k ad hc => by subst hc; exact horderly.1
  refine ⟨⟨fun k => ?_, hcore ▸ h.gauge, by rw [hthreads, htid]; exact h.threads, by rw [hbusy, hcore]; exact h.busy,
    hkeyed⟩, ?_⟩
  · have hle := exec_endsOf hx k
    have hsame : w₁.endsOf k ≤ w.endsOf k := by
      cases c with
      | submit ev =>
        have hnot : ev.terminalFor k = false := horderly.1 k
        simp only [hnot] at hle
        exact hle
      | _ => exact hle
    rw [hcore]
    refine h.runs_le ?_
    simp only [runsOf, hthreads]
    exact Nat.add_le_add_left hsame _
  · rw [hcore]
    exact horderly.2 r hexpects

/-! ## Executions -/

/-- a step of the schedd, or the queue as something else leaves it: a transaction, the materialization engine, a
spooling client -/
inductive Act (E : Type) where
  | sched (s : Step)
  | edit (q : Queue E)

def act (cfg : SchedConfig E) (w : World E) : Act E → World E
  | .sched s => step cfg w s
  | .edit q => { w with q := q }

/-- an edit leaves every ad under its ids, as every reachable queue has them (`Sys.reachable_wellKeyed`) -/
def Act.Keyed : Act E → Prop
  | .sched _ => True
  | .edit q => q.coll.Keyed

/-- **One step.** -/
theorem act_single {a : Act E} (ha : a.Keyed) (h : Single cfg w) : Single cfg (act cfg w a) := by
  cases a with
  | edit => exact ⟨h.runs, h.gauge, h.threads, h.busy, ha⟩
  | sched s =>
    have hmove := step_move cfg w s
    simp only [act]
    generalize step cfg w s = w' at hmove
    cases hmove with
    | idle => exact h
    | tool k req => exact h.spawn (by simp) (applyAction_orderly w.q cfg.hook k req)
    | call _ ev n os hev hn _ _ =>
      have hterm : ∀ k, ev.terminalFor k = false := by
        intro k
        cases s <;> simp only [callEvent, reduceCtorEq, Option.some.injEq] at hev <;> subst hev <;> rfl
      obtain ⟨hcore, hth, hbusy, -, hq⟩ := submit_frame w ev
      refine ⟨fun k => ?_,
        by simp only [hcore]; exact h.gauge, fun i th hl => ?_, by simp only [hbusy, hcore]; exact h.busy,
        by simp only [hq]; exact h.keyed⟩
      · have hle := endsOf_submit w ev k
        rw [hterm k] at hle
        simp only [hcore]
        refine h.runs_le ?_
        simp only [runsOf, endsOf, hth, Bool.false_eq_true, if_false] at hle ⊢
        omega
      · simp only [hth] at hl
        exact ⟨(h.threads i th hl).1, lt_of_lt_of_le (h.threads i th hl).2 hn⟩
    | take ev rest hb he =>
      refine (h.take hb he).resume
        (Prog.wp_mono (fun _ fin hfin => ⟨hfin.1, fun r hr => ⟨fun hk => ?_, (hfin.2 r hr).2⟩⟩)
        (Sched.handle_orderly cfg w.core ev))
      exact (hfin.2 r hr).1 ((Sched.handle_registry cfg w.core ev).1 r.key hk).1
    | sweep =>
      have hsweep : Single cfg { w with core := (Sched.sweepExpired cfg w.core).1 } :=
        ⟨h.runs, h.gauge, h.threads, h.busy, h.keyed⟩
      exact hsweep.resume (Sched.sweepExpired_orderly cfg w.core)
    | core ch c f r w₁ hb hx =>
      obtain ⟨h₁, hgo⟩ := h.exec hb hx
      exact h₁.resume hgo
    | thread i ch job role c f r w₁ ht hx => exact h.thread ht hx

/-- **At most one run of a job.** In every state of every execution, for each job the live goroutines of its runs and
its terminal events in the channel are together at most one, and one only if the job is in the registry; and the gauge
is the number of entries. -/
theorem one_run (cfg : SchedConfig E) (q : Queue E) (hq : q.coll.Keyed) (acts : List (Act E))
    (hacts : ∀ a ∈ acts, a.Keyed) :
    let w := acts.foldl (act cfg) (start q)
    (∀ k, w.runsOf k + w.endsOf k ≤ 1 ∧ (w.runsOf k + w.endsOf k = 1 → k ∈ w.core.running)) ∧
      w.core.gauge = w.core.running.keys.length := by
  intro w
  have hmeets : ∀ (acts : List (Act E)) (w : World E), (∀ a ∈ acts, a.Keyed) →
      Runs.Meets (act cfg) (fun _ a => a.Keyed) w acts := by
    intro acts
    induction acts with
    | nil => exact fun _ _ => trivial
    | cons a acts ih => exact fun w h => ⟨h a List.mem_cons_self, ih _ fun a' ha' => h a' (List.mem_cons_of_mem a ha')⟩
  have hsingle : Single cfg w :=
    Runs.foldl_inv_of (A := fun _ a => a.Keyed) (P := Single cfg) (fun _ _ ha h =>
      act_single ha h) (start_single cfg hq)
      (hmeets acts _ hacts)
  refine ⟨fun k => ?_, ?_⟩
  · exact ⟨(hsingle.runs k).1, fun hone => (hsingle.runs k).2 (hone ▸ Nat.one_pos)⟩
  · have hgauge := hsingle.gauge
    simpa [Core.Gauged, count, AList.keys, List.keys] using hgauge

end World

end

namespace World

/-- the first job is started, another client commits, and the negotiator hands out a second match for it -/
def rematched : List (Act Value) :=
  started.map .sched ++ [.edit aliceQueue, .sched (.onMatch aliceMatch), .sched .take]

theorem one_run_rematched :
    let w := rematched.foldl (act poolSched) (start aliceQueue)
    w.runsOf ⟨1, 0⟩ + w.endsOf ⟨1, 0⟩ = 1 ∧ (⟨1, 0⟩ ∈ w.core.running) ∧ w.core.gauge = w.core.running.keys.length := by
  have hq : aliceQueue.coll.Keyed := fun k ad h => Sys.reachable_wellKeyed aliceQueue_reachable h
  have hacts : ∀ a ∈ rematched, a.Keyed := by
    intro a ha
    rcases List.mem_append.1 ha with ha | ha
    · obtain ⟨_, -, rfl⟩ := List.mem_map.1 ha
      exact trivial
    · simp only [List.mem_cons, List.not_mem_nil, or_false] at ha
      rcases ha with rfl | rfl | rfl
      · exact hq
      · exact trivial
      · exact trivial
  have hone := one_run poolSched aliceQueue hq rematched hacts
  have hcount : (rematched.foldl (act poolSched) (start aliceQueue)).runsOf ⟨1, 0⟩ +
      (rematched.foldl (act poolSched) (start aliceQueue)).endsOf ⟨1, 0⟩ = 1 := by decide +kernel
  exact ⟨hcount, (hone.1 _).2 hcount, hone.2⟩

end World

end AccessPoint
