/-
What a run does with its claim (internal/negotiate/negotiate.go, `readMatch`; internal/sched/sched.go, `handleMatch`,
`runJob`, `handleFailed`; shadow/shadow.go, `afterServe`).

A match comes with a claim blob: a claim id and, after a blank, extra claims. The core either enters the claim into the
registry with the run it starts or releases it; later the shadow's wind-down releases the claim it has served, and the
core that of a run that failed. A `Ledger` is the schedd together with what these releases depend on and the claims
released so far. The wind-down of a run recovered at startup, which has no blob, is not noted.

- `Ledger.step`: one step of the schedd and the releases that go with it.
- `ClaimStage`: where a run stands with its claim; `runJob_stages`: `runJob` passes through these stages and no others.
- `handle_begins`, `handle_carries`: the runs a handler starts, and what it leaves of an entry.
- `Course`: the stage of a run against its entry of the registry and its events in the channel.
-/
import AccessPoint.Negotiate.Round
import AccessPoint.Sched.ExitReceived
import AccessPoint.Sched.Outstanding
import AccessPoint.Shadow.Syscalls

namespace AccessPoint

open ClassAdLib

variable {E : Type}

/-! ## Claim blobs -/

namespace Negotiate

/-- the claim ids of a claim blob -/
def claimIds (claimBlob : String) : List String :=
  (splitClaims claimBlob).1 ::
    ((Text.splitAt ' ' (splitClaims claimBlob).2.toList).filter (· ≠ [])).map String.ofList

/-- what the core reads of a match that goes to job `k` -/
def Match.forCore (m : Match E) (k : JobKey) : AccessPoint.Match := ⟨k, m.claimID, m.slotName⟩

theorem claimIds_of_no_extra {claimBlob : String} (h : (splitClaims claimBlob).2 = "") :
    claimIds claimBlob = [(splitClaims claimBlob).1] := by
  unfold claimIds
  rw [h]
  rfl

end Negotiate

/-! ## Releases -/

namespace Sched

/-- the claim `handleFailed` releases -/
def failedReleases (core : Core) : Event → List String
  | .evFailed k err _ claimID released =>
    let ri := core.running.lookup k
    if ri.any (·.detached) ∨ err = .detached then []
    else
      let claim := if claimID = "" then (ri.map (·.claimID)).getD "" else claimID
      if claim ≠ "" ∧ ¬ released then [claim] else []
  | _ => []

/-- `handleMatch` releases the claim of a match it does not accept -/
def matchReleases (fin : Finish E) : Option Event → List String
  | some (.evMatch m) => if fin.runs.isEmpty then [m.claimID] else []
  | _ => []

end Sched

namespace World

variable [ClassAdLib E]

omit [ClassAdLib E] in
/-- the event the core takes in a step -/
def taking (w : World E) : Step → Option Event
  | .take =>
    match w.busy, w.events with
    | none, ev :: _ => some ev
    | _, _ => none
  | _ => none

omit [ClassAdLib E] in
/-- the end of a handler that goes on with `p` -/
def endOf (ev : Option Event) : Go E (Finish E) → Option (Option Event × Finish E)
  | .ret fin => some (ev, fin)
  | .call _ _ => none

/-- the handler that ends in a step: its event, and what it leaves to do -/
def ended (cfg : SchedConfig E) (w : World E) : Step → Option (Option Event × Finish E)
  | .take => (w.taking .take).bind fun ev => endOf (some ev) (Sched.handle cfg w.core ev).2
  | .core ch =>
    match w.busy with
    | some (.call c f) => (w.exec 0 ch c).bind fun r => endOf w.handling (f r.1)
    | _ => none
  | _ => none

omit [ClassAdLib E] in
/-- the claim a run has activated in a step, with its job -/
def activates (w : World E) : Step → Option (JobKey × String)
  | .thread i ch =>
    match w.threads.lookup i with
    | some ⟨job, .run, .call (.claim _) _⟩ =>
      match ch.claim with
      | .activated _ claimID => some (job, claimID)
      | _ => none
    | _ => none
  | _ => none

omit [ClassAdLib E] in
/-- the job of a shadow that winds its claim down in a step -/
def windsDown (w : World E) : Step → Option JobKey
  | .thread i ch =>
    match w.threads.lookup i with
    | some ⟨job, .run, .call .serve _⟩ =>
      match ch.serve with
      | .exited _ err => if err = some .detached then none else some job
      | _ => none
    | _ => none
  | _ => none

/-- the runs a drain detaches in a step -/
def detaches (cfg : SchedConfig E) (w : World E) (s : Step) : List JobKey :=
  match w.taking s with
  | some (.evDrain _) =>
    if cfg.reconnectDisabled then [] else Sched.runsWhere w.core fun ri => !(ri.vacated || ri.detached)
  | _ => []

end World

/-- what the releases depend on, and the releases -/
structure Notes where
  /-- the claim the shadow of a job serves -/
  served : KeyMap JobKey String
  /-- the claims released by the core or by a wind-down -/
  released : List String
  /-- the runs in the registry that were detached while their job was Running -/
  parted : List JobKey

/-- the schedd and its notes -/
structure Ledger (E : Type) where
  world : World E
  notes : Notes

namespace Ledger

variable [ClassAdLib E]

omit [ClassAdLib E] in
def start (q : Queue E) : Ledger E := ⟨World.start q, ⟨∅, [], []⟩⟩

/-- the claims released in a step -/
def releases (cfg : SchedConfig E) (l : Ledger E) (s : World.Step) : List String :=
  ((l.world.windsDown s).bind fun k => l.notes.served.lookup k).toList ++
    ((l.world.taking s).toList.flatMap (Sched.failedReleases l.world.core) ++
      (l.world.ended cfg s).toList.flatMap fun e => Sched.matchReleases e.2 e.1)

def note (cfg : SchedConfig E) (l : Ledger E) (s : World.Step) : Notes where
  served :=
    match l.world.activates s with
    | some (k, claimID) => l.notes.served.insert k claimID
    | none => l.notes.served
  released := l.notes.released ++ l.releases cfg s
  parted := (l.notes.parted ++ (l.world.detaches cfg s).filter fun k => l.world.q.coll.isRunning k).filter
    fun k => k ∈ (World.step cfg l.world s).core.running

def step (cfg : SchedConfig E) (l : Ledger E) : World.Act E → Ledger E
  | .sched s => ⟨World.step cfg l.world s, l.note cfg s⟩
  | .edit q => { l with world := { l.world with q := q } }

end Ledger

/-! ## Stages of a run -/

/-- where a run stands with its claim -/
inductive ClaimStage where
  /-- it asks for the claim of its match -/
  | claiming (claim : String)
  /-- it has activated a claim -/
  | starting (claim : String)
  /-- its shadow serves the claim -/
  | serving (claim : String)
  /-- it reports a failure that names this claim, or none -/
  | failing (claim : String)
  /-- it reports how the shadow ended -/
  | exiting (err : Option RunErr)
  /-- a recovered run re-attaches -/
  | rejoining
  /-- a recovered run reports its end -/
  | rejoined
  | done

/-- what a run of `k` does at each stage -/
def stageProtocol (E : Type) (k : JobKey) : Prog.Protocol (Cmd.Resp (E := E)) ClaimStage where
  allowed := fun st c =>
    match st, c with
    | .claiming claim, .claim m => m.claimID = claim
    | .starting claim, .submit ev => ∃ slotName, ev = .evStarted k slotName claim
    | .serving _, .serve => True
    | .failing claim, .submit ev => ∃ msg panicked, ev = .evFailed k (.other msg) panicked claim false
    | .exiting err, .submit ev => ∃ res, ev = .evExited k res err
    | .rejoining, .reattach => True
    | .rejoined, .submit ev => ev.terminalFor k = true
    | _, _ => False
  expects := fun _ _ _ => True
  next := fun st c =>
    match st, c with
    | .claiming _, .claim _ => fun r : ClaimOutcome =>
      match r with
      | .failed _ claimID => .failing claimID
      | .panicked _ => .failing ""
      | .activated _ claimID => .starting claimID
    | .starting claim, .submit _ => fun _ => .serving claim
    | .serving claim, .serve => fun r : ServeOutcome =>
      match r with
      | .failed _ => .failing claim
      | .panicked _ => .failing ""
      | .exited _ err => .exiting err
    | .rejoining, .reattach => fun _ => .rejoined
    | _, _ => fun _ => .done

/-- the rest of a run of `k`; it ends only when it has reported -/
abbrev Staged (k : JobKey) (p : Go E (ℤ × List (ULog E))) (st : ClaimStage) : Prop :=
  Prog.wp (stageProtocol E k) (fun st' _ => st' = .done) p st

theorem runJob_stages (m : Match) : Staged m.key (runJob m : Go E (ℤ × List (ULog E))) (.claiming m.claimID) := by
  refine ⟨rfl, fun r _ => ?_⟩
  cases r with
  | failed msg => exact ⟨⟨msg, false, rfl⟩, fun _ _ => rfl⟩
  | panicked => exact ⟨⟨_, true, rfl⟩, fun _ _ => rfl⟩
  | activated slotName =>
    refine ⟨⟨slotName, rfl⟩, fun _ _ => ⟨trivial, fun r _ => ?_⟩⟩
    cases r with
    | failed => exact ⟨⟨_, false, rfl⟩, fun _ _ => rfl⟩
    | panicked => exact ⟨⟨_, true, rfl⟩, fun _ _ => rfl⟩
    | exited res => exact ⟨⟨res, rfl⟩, fun _ _ => rfl⟩

theorem reconnectJob_stages [ClassAdLib E] (cfg : SchedConfig E) (k : JobKey) (claimID : String) (job : Ad E) :
    Staged k (reconnectJob cfg k claimID job) .rejoining := by
  refine ⟨trivial, fun r _ => ?_⟩
  cases r with
  | failed | panicked | exited => exact ⟨decide_eq_true rfl, fun _ _ => rfl⟩

variable {st : ClaimStage}

/-- a run that has not reported goes on -/
theorem Staged.goes_on {k : JobKey} {p : Go E (ℤ × List (ULog E))} (h : Staged k p st) (hst : st ≠ .done) :
    ∃ c f, p = .call c f := by
  cases p with
  | ret => exact absurd h hst
  | call c f => exact ⟨c, f, rfl⟩

/-! ## The runs a handler starts -/

namespace Sched

variable [ClassAdLib E]

open Prog

/-- the run of a match with a claim, or a recovered one -/
def Opens (r : NewRun E) : Prop :=
  r.info.detached = false ∧
    (r.info.reconnect = false ∧ r.info.claimID ≠ "" ∧ Staged r.key r.prog (.claiming r.info.claimID) ∨
      r.info.reconnect = true ∧ Staged r.key r.prog .rejoining)

/-- the handler of a match accepts it, with its claim, or starts no run -/
def Settles (fin : Finish E) : Option Event → Prop
  | some (.evMatch m) => fin.runs = [] ∨ ∃ r, fin.runs = [r] ∧ r.key = m.key ∧ r.info.claimID = m.claimID
  | _ => True

/-- what a handler leaves to do about claims -/
def Begins (ev : Option Event) (fin : Finish E) : Prop := (∀ r ∈ fin.runs, Opens r) ∧ Settles fin ev

omit [ClassAdLib E] in
theorem begins_nil {ev : Option Event} {fin : Finish E} (h : fin.runs = []) : Begins ev fin := by
  refine ⟨fun r hr => ?_, ?_⟩
  · rw [h] at hr
    cases hr
  · unfold Settles
    split
    · exact .inl h
    · trivial

theorem handle_opens (cfg : SchedConfig E) (core : Core) (ev : Event) :
    Results (fun fin => ∀ r ∈ fin.runs, Opens r) (handle cfg core ev).2 := by
  refine (handle_begun cfg core ev).mono fun fin hfin r hr => ?_
  cases hfin r hr with
  | matched m _ hclaim => exact ⟨rfl, .inl ⟨rfl, hclaim, runJob_stages m⟩⟩
  | recovered done ad r h =>
    obtain ⟨_, _, hinfo, hprog⟩ := h.run
    exact ⟨by rw [hinfo], .inr ⟨by rw [hinfo], hprog ▸ reconnectJob_stages cfg _ _ ad⟩⟩

theorem handle_begins (cfg : SchedConfig E) (core : Core) (ev : Event) :
    Results (Begins (some ev)) (handle cfg core ev).2 := by
  cases hev : ev.recovers with
  | true =>
    cases ev with
    | evRecover => exact (handle_opens cfg core _).mono fun fin hfin => ⟨hfin, trivial⟩
    | _ => cases hev
  | false =>
    refine ((handle_opens cfg core ev).and ((handle_begun cfg core ev).and (handle_finish cfg core ev hev))).mono ?_
    rintro fin ⟨hopens, hbegun, hleaves⟩
    cases hleaves with
    | closes hruns => exact begins_nil hruns
    | starts m r hm _ hruns hkey =>
      subst hm
      refine ⟨hopens, .inr ⟨r, hruns, hkey, ?_⟩⟩
      cases hbegun r (hruns ▸ List.mem_singleton_self r) with
      | matched => rfl

/-- what an event leaves of an entry, as far as claims go -/
structure Carries (cfg : SchedConfig E) (ev : Event) (k : JobKey) (ri ri' : RunInfo) : Prop where
  reconnect : ri'.reconnect = ri.reconnect
  claim : ev.startedFor k = false → ri'.claimID = ri.claimID
  started : ∀ slotName claimID, ev = .evStarted k slotName claimID → claimID ≠ "" → ri'.claimID = claimID
  kept : ri.detached = true → ri'.detached = true
  detached : ri'.detached = true → ri.detached = true ∨
    (∃ done, ev = .evDrain done) ∧ cfg.reconnectDisabled = false ∧ ri.vacated = false

theorem handle_carries (cfg : SchedConfig E) (core : Core) (ev : Event) {k : JobKey} {ri' : RunInfo}
    (h : (handle cfg core ev).1.running.lookup k = some ri') :
    ∃ ri, core.running.lookup k = some ri ∧ Carries cfg ev k ri ri' := by
  obtain ⟨ri, hl, rfl⟩ := lookup_handle cfg core ev h
  refine ⟨ri, hl, ?_⟩
  have hsame : (∀ slotName claimID, ev ≠ .evStarted k slotName claimID) → Carries cfg ev k ri ri :=
    fun hev => ⟨rfl, fun _ => rfl, fun s c he => absurd he (hev s c), id, .inl⟩
  cases ev with
  | evStarted k' =>
    simp only [entryAfter]
    split_ifs with hk
    · refine ⟨rfl, fun hs => ?_, fun s c he hc => ?_, id, .inl⟩
      · exact absurd hs (by simp [Event.startedFor, hk])
      · cases he
        exact if_pos hc
    · exact hsame fun s c he => hk (Event.evStarted.inj he).1.symm
  | evTeardown =>
    simp only [entryAfter]
    split_ifs
    · exact ⟨rfl, fun _ => rfl, fun _ _ he => (by cases he), id, .inl⟩
    · exact hsame (by simp)
  | evDrain done =>
    simp only [entryAfter]
    split_ifs with hcfg hmarked
    · exact ⟨rfl, fun _ => rfl, fun _ _ he => (by cases he), id, .inl⟩
    · exact hsame (by simp)
    · have hvacated : ri.vacated = false := by
        cases hv : ri.vacated with
        | true => exact absurd (by simp [hv]) hmarked
        | false => rfl
      refine ⟨rfl, fun _ => rfl, fun _ _ he => (by cases he), fun _ => rfl, fun _ => .inr ⟨⟨done, rfl⟩, ?_, hvacated⟩⟩
      exact Bool.eq_false_iff.2 hcfg
  | _ => exact hsame (by simp)

end Sched

/-! ## Goroutines and the channel -/

/-- a goroutine that is no run reports none -/
def Cmd.Discreet (c : Cmd E) : Prop := ∀ ev, c = .submit ev → ∀ k, ev.ofRun k = false

namespace World

/-- the events of the run of `k` in the channel -/
def mail (w : World E) (k : JobKey) : List Event := w.events.filter (Event.ofRun k)

variable {w w' : World E} {k : JobKey}

theorem Adds.mail {P : Event → Prop} (h : Adds P w w') (hP : ∀ ev, P ev → ev.ofRun k = false) :
    w'.mail k = w.mail k := by
  rcases h with h | ⟨ev, hp, h⟩
  · rw [World.mail, h]
    rfl
  · rw [World.mail, h, List.filter_append]
    simp [World.mail, hP ev hp]

/-- a goroutine that is there, or a run that starts, is there when the runs have started -/
theorem startRuns_thread (rs : List (NewRun E)) (w : World E) {th : Thread E}
    (h : (∃ i < w.nextTid, w.threads.lookup i = some th) ∨ ∃ r ∈ rs, th = ⟨r.key, .run, r.prog⟩) :
    ∃ i < (rs.foldl startRun w).nextTid, (rs.foldl startRun w).threads.lookup i = some th := by
  induction rs generalizing w with
  | nil =>
    rcases h with h | ⟨r, hr, -⟩
    · exact h
    · cases hr
  | cons r rs ih =>
    apply ih (w.startRun r)
    rcases h with ⟨i, hi, hl⟩ | ⟨r', hr', rfl⟩
    · exact .inl ⟨i, Nat.lt_succ_of_lt hi, (AList.lookup_insert_ne hi.ne).trans hl⟩
    · rcases List.mem_cons.1 hr' with rfl | hr'
      · exact .inl ⟨w.nextTid, Nat.lt_succ_self _, AList.lookup_insert _⟩
      · exact .inr ⟨r', hr', rfl⟩

variable [ClassAdLib E] {cfg : SchedConfig E}

theorem finish_thread (cfg : SchedConfig E) (w : World E) (fin : Finish E) {th : Thread E}
    (h : (∃ i < w.nextTid, w.threads.lookup i = some th) ∨ ∃ r ∈ fin.runs, th = ⟨r.key, .run, r.prog⟩) :
    ∃ i, (w.finish cfg fin).threads.lookup i = some th := by
  unfold finish
  dsimp only
  obtain ⟨i, hi, hl⟩ := startRuns_thread fin.runs { w with
    busy := none, closed := fin.close ++ w.closed, ulog := w.ulog ++ fin.ulog
    core := w.core.mapRuns fun k ri => if k ∈ fin.vacate then Sched.vacateRun ri else ri } h
  cases fin.policy with
  | none => exact ⟨i, hl⟩
  | some => exact ⟨i, (AList.lookup_insert_ne hi.ne).trans hl⟩

theorem applyPolicy_discreet (cfg : SchedConfig E) (q : Queue E) (k : JobKey) (req : ActionRequest) :
    Prog.Calls Cmd.Discreet (applyPolicy cfg q k req) := by
  refine Prog.calls_bind ((actOnJob_quiet q cfg.hook k req true).mono fun c hc ev he => absurd he (hc ev)) fun r => ?_
  refine ⟨fun ev he => ?_, fun _ => trivial⟩
  cases he
  exact fun _ => rfl

/-- what the programs of the schedd keep to -/
structure Conducted (cfg : SchedConfig E) (w : World E) : Prop where
  single : Single cfg w
  meek : ∀ p, w.busy = some p → Prog.Calls Meek p
  discreet : ∀ i th, w.threads.lookup i = some th → th.role ≠ .run → Prog.Calls Cmd.Discreet th.prog
  begins : ∀ p, w.busy = some p → Prog.Results (Sched.Begins w.handling) p

theorem start_conducted (cfg : SchedConfig E) {q : Queue E} (hq : q.coll.Keyed) : Conducted cfg (start q) where
  single := start_single cfg hq
  meek := fun p hp => (nomatch hp)
  discreet := fun i th hl => by simp [start] at hl
  begins := fun p hp => (nomatch hp)

theorem resume_discreet (h : ∀ i th, w.threads.lookup i = some th → th.role ≠ .run → Prog.Calls Cmd.Discreet th.prog)
    (p : Go E (Finish E)) :
    ∀ i th, (w.resume cfg p).threads.lookup i = some th → th.role ≠ .run → Prog.Calls Cmd.Discreet th.prog := by
  intro i th hl hrole
  cases p with
  | ret fin =>
    rcases (finish_threads cfg w fin).2 i th hl with hold | ⟨-, -, ⟨r, -, rfl⟩ | ⟨k', req, q, -, rfl⟩⟩
    · exact h i th hold hrole
    · exact absurd rfl hrole
    · exact applyPolicy_discreet cfg q k' req
  | call => exact h i th hl hrole

theorem resume_begins {p : Go E (Finish E)} (hp : Prog.Results (Sched.Begins w.handling) p) :
    ∀ p', (w.resume cfg p).busy = some p' → Prog.Results (Sched.Begins (w.resume cfg p).handling) p' := by
  intro p' hb
  cases p with
  | ret fin =>
    rw [World.resume, (finish_frame cfg w fin).2.1] at hb
    cases hb
  | call => exact Option.some.inj hb ▸ hp

theorem Conducted.step (h : Conducted cfg w) (s : Step) : Conducted cfg (step cfg w s) := by
  have hsingle : Single cfg (World.step cfg w s) := act_single (a := .sched s) trivial h.single
  have hmove := step_move cfg w s
  revert hsingle
  generalize World.step cfg w s = w' at hmove
  intro hsingle
  cases hmove with
  | idle => exact h
  | tool k' req =>
    refine ⟨hsingle, h.meek, fun i th hl hrole => ?_, h.begins⟩
    simp only [World.spawn, KeyMap.lookup_insert_ite] at hl
    split_ifs at hl
    · obtain rfl := Option.some.inj hl
      exact (actOnJob_quiet w.q cfg.hook k' req true).mono fun c hc ev he => absurd he (hc ev)
    · exact h.discreet i th hl hrole
  | call _ ev n os hev hn hch hos =>
    obtain ⟨-, hth, hb, -, -⟩ := submit_frame w ev
    have hhand : (w.trace ++ os).foldl Obs.hand none = w.handling := by
      rcases hos with rfl | ⟨m, -, rfl⟩ <;> simp [handling, Obs.hand]
    refine ⟨hsingle, by simp only [hb]; exact h.meek, by simp only [hth]; exact h.discreet, fun p hp => ?_⟩
    change Prog.Results (Sched.Begins ((w.trace ++ os).foldl Obs.hand none)) p
    rw [hhand]
    exact h.begins p (hb ▸ hp)
  | take ev rest =>
    have hhand : (World.took cfg w ev rest).handling = some ev := handling_observe _ _
    exact ⟨hsingle, resume_meek (Sched.handle_meek cfg w.core ev),
      resume_discreet (w := World.took cfg w ev rest) h.discreet _,
      resume_begins (w := World.took cfg w ev rest) (hhand ▸ Sched.handle_begins cfg w.core ev)⟩
  | sweep =>
    refine ⟨hsingle, resume_meek (Sched.sweepExpired_meek cfg w.core), resume_discreet h.discreet _, resume_begins ?_⟩
    exact (Sched.sweepExpired_finish cfg w.core).mono fun fin hfin => Sched.begins_nil hfin.1
  | core ch c f r w₁ hb hx =>
    obtain ⟨-, hthreads, -, -, -⟩ := exec_frame hx
    obtain ⟨-, hgo⟩ := h.meek _ hb
    refine ⟨hsingle, resume_meek (hgo r), resume_discreet (hthreads ▸ h.discreet) _, resume_begins ?_⟩
    rw [(exec_hand (k := ⟨0, 0⟩) hx).1]
    exact h.begins _ hb r
  | thread i ch job role c f r w₁ ht hx =>
    have hframe := thread_frame hx ⟨0, 0⟩ ⟨job, role, .call c f⟩ (f r)
    refine ⟨hsingle, by rw [hframe.busy]; exact h.meek, fun j th hl hrole => ?_, fun p hp => ?_⟩
    · rcases thread_threads hx _ _ hl with ⟨-, hold⟩ | ⟨rfl, rfl⟩
      · exact h.discreet j th hold hrole
      · exact (h.discreet j _ ht hrole).2 r
    · rw [hframe.handling]
      exact h.begins p (hframe.busy ▸ hp)

end World

/-! ## The course of a run -/

/-- the claim a run goes by: its `evStarted` is on the way, or the entry has it -/
def Heard (k : JobKey) (mail : List Event) (ri : RunInfo) (claim : String) : Prop :=
  claim ≠ "" ∧ ((∃ slotName, mail = [.evStarted k slotName claim]) ∨ mail = [] ∧ ri.claimID = claim)

/-- a shadow that ends so was detached, or has released its claim -/
def Dismissed (n : Notes) (ri : RunInfo) (claim : String) (err : Option RunErr) : Prop :=
  (err = some .detached → ri.detached = true) ∧ (err ≠ some .detached → claim ∈ n.released)

/-- the core will release the claim when it takes this event, or need not -/
def Accounts (n : Notes) (ri : RunInfo) (claim : String) : Event → Prop
  | .evFailed _ err _ claimID released => err ≠ .detached ∧ released = false ∧ (claimID = "" ∨ claimID = claim)
  | .evExited _ _ err => Dismissed n ri claim err
  | _ => False

/-- what a stage means for the entry, the channel and the notes -/
def ClaimStage.Holds (k : JobKey) (mail : List Event) (n : Notes) (ri : RunInfo) : ClaimStage → Prop
  | .claiming claim => mail = [] ∧ ri.claimID = claim ∧ claim ≠ ""
  | .starting claim => mail = [] ∧ claim ≠ "" ∧ n.served.lookup k = some claim
  | .serving claim => Heard k mail ri claim ∧ n.served.lookup k = some claim
  | .failing claim => ∃ c, Heard k mail ri c ∧ (claim = "" ∨ claim = c)
  | .exiting err => ∃ c, Heard k mail ri c ∧ Dismissed n ri c err
  | .rejoining => mail = [] ∧ ri.reconnect = true
  | .rejoined => mail = [] ∧ ri.reconnect = true
  | .done => False

/-- the run behind an entry: its goroutine at some stage, or its last event in the channel -/
inductive Course (w : World E) (n : Notes) (k : JobKey) (ri : RunInfo) : Prop where
  | live (i : ℕ) (p : Go E (ℤ × List (ULog E))) (st : ClaimStage) (hl : w.threads.lookup i = some ⟨k, .run, p⟩)
      (hp : Staged k p st) (hst : st.Holds k (w.mail k) n ri)
  | reported (pre : List Event) (ev : Event) (hmail : w.mail k = pre ++ [ev]) (hev : ev.terminalFor k = true)
      (hclaim : ri.reconnect = true ∧ pre = [] ∨ ∃ c, Heard k pre ri c ∧ Accounts n ri c ev)

section

variable {k : JobKey} {mail : List Event} {n n' : Notes} {ri ri' : RunInfo} {claim : String}

/-- an entry and notes that say no less about the claim of a run -/
structure Upkeep (n n' : Notes) (ri ri' : RunInfo) : Prop where
  reconnect : ri'.reconnect = ri.reconnect
  detached : ri.detached = true → ri'.detached = true
  released : n.released ⊆ n'.released

theorem Dismissed.carry {err : Option RunErr} (h : Dismissed n ri claim err) (hup : Upkeep n n' ri ri') :
    Dismissed n' ri' claim err :=
  ⟨fun he => hup.detached (h.1 he), fun he => hup.released (h.2 he)⟩

variable {ev : Event}

theorem Accounts.carry (h : Accounts n ri claim ev) (hup : Upkeep n n' ri ri') : Accounts n' ri' claim ev := by
  cases ev with
  | evFailed => exact h
  | evExited => exact Dismissed.carry h hup
  | _ => exact absurd h id

theorem Heard.carry (h : Heard k mail ri claim) (hclaim : ri'.claimID = ri.claimID) : Heard k mail ri' claim :=
  ⟨h.1, h.2.imp_right fun hmail => ⟨hmail.1, hclaim.trans hmail.2⟩⟩

theorem ClaimStage.Holds.carry (h : st.Holds k mail n ri) (hup : Upkeep n n' ri ri')
    (hclaim : ri'.claimID = ri.claimID) (hserved : n'.served.lookup k = n.served.lookup k) :
    st.Holds k mail n' ri' := by
  cases st with
  | claiming => exact ⟨h.1, hclaim.trans h.2.1, h.2.2⟩
  | starting => exact ⟨h.1, h.2.1, hserved.trans h.2.2⟩
  | serving => exact ⟨h.1.carry hclaim, hserved.trans h.2⟩
  | failing =>
    obtain ⟨c, hheard, hc⟩ := h
    exact ⟨c, hheard.carry hclaim, hc⟩
  | exiting =>
    obtain ⟨c, hheard, herr⟩ := h
    exact ⟨c, hheard.carry hclaim, herr.carry hup⟩
  | rejoining | rejoined => exact ⟨h.1, hup.reconnect.trans h.2⟩
  | done => exact h

/-- nothing happens to the run -/
theorem Course.carry {w w' : World E} (h : Course w n k ri) (hup : Upkeep n n' ri ri')
    (hclaim : ri'.claimID = ri.claimID)
    (hserved : n'.served.lookup k = n.served.lookup k) (hmail : w'.mail k = w.mail k)
    (hth : ∀ i p, w.threads.lookup i = some ⟨k, .run, p⟩ → ∃ j, w'.threads.lookup j = some ⟨k, .run, p⟩) :
    Course w' n' k ri' := by
  cases h with
  | live i p st hl hp hst =>
    obtain ⟨j, hj⟩ := hth i p hl
    exact .live j p st hj hp (hmail ▸ hst.carry hup hclaim hserved)
  | reported pre ev hm hev hc =>
    refine .reported pre ev (hmail.trans hm) hev ?_
    rcases hc with ⟨hr, hpre⟩ | ⟨c, hheard, hacc⟩
    · exact .inl ⟨hup.reconnect.trans hr, hpre⟩
    · exact .inr ⟨c, hheard.carry hclaim, hacc.carry hup⟩

variable {rest : List Event}

/-- `evStarted` is taken: the entry has the claim -/
theorem Heard.hear {slotName c : String} (h : Heard k (.evStarted k slotName c :: rest) ri claim)
    (hclaim : c ≠ "" → ri'.claimID = c) : Heard k rest ri' claim := by
  obtain ⟨hne, ⟨_, hs⟩ | ⟨hnil, -⟩⟩ := h
  · cases hs
    exact ⟨hne, .inr ⟨rfl, hclaim hne⟩⟩
  · cases hnil

/-- before its last event a run has at most its `evStarted` in the channel -/
theorem Heard.not_terminal (h : Heard k (ev :: rest) ri claim) : ev.terminalFor k = false := by
  obtain ⟨-, ⟨_, hs⟩ | ⟨hnil, -⟩⟩ := h
  · cases hs
    rfl
  · cases hnil

theorem ClaimStage.Holds.not_terminal (h : st.Holds k (ev :: rest) n ri) : ev.terminalFor k = false := by
  cases st with
  | serving => exact h.1.not_terminal
  | failing | exiting =>
    obtain ⟨_, hheard, -⟩ := h
    exact hheard.not_terminal
  | done => exact absurd h id
  | _ => cases h.1

theorem Course.hear {w w' : World E} {slotName c : String} (h : Course w n k ri) (hup : Upkeep n n' ri ri')
    (hclaim : c ≠ "" → ri'.claimID = c) (hserved : n'.served.lookup k = n.served.lookup k)
    (hmail : w.mail k = .evStarted k slotName c :: w'.mail k) (hth : w'.threads = w.threads) : Course w' n' k ri' := by
  cases h with
  | live i p st hl hp hst =>
    refine .live i p st (hth ▸ hl) hp ?_
    rw [hmail] at hst
    cases st with
    | serving => exact ⟨hst.1.hear hclaim, hserved.trans hst.2⟩
    | failing =>
      obtain ⟨c', hheard, hc⟩ := hst
      exact ⟨c', hheard.hear hclaim, hc⟩
    | exiting =>
      obtain ⟨c', hheard, herr⟩ := hst
      exact ⟨c', hheard.hear hclaim, herr.carry hup⟩
    | done => exact absurd hst id
    | _ => cases hst.1
  | reported pre ev hm hev hc =>
    -- the last event is not the one that is taken
    rw [hmail] at hm
    cases pre with
    | nil =>
      obtain ⟨rfl, -⟩ := List.cons.inj hm
      cases hev
    | cons ev' pre =>
      obtain ⟨rfl, htail⟩ := List.cons.inj hm
      rcases hc with ⟨-, hpre⟩ | ⟨c', hheard, hacc⟩
      · cases hpre
      · exact .reported pre ev htail hev (.inr ⟨c', hheard.hear hclaim, hacc.carry hup⟩)

/-- the last event of a run is taken: nothing of the run is left in the channel, and its claim is accounted for -/
theorem Course.ends {w : World E} (h : Course w n k ri) (hmail : w.mail k = ev :: rest)
    (hev : ev.terminalFor k = true) :
    rest = [] ∧ (ri.reconnect = true ∨ ri.claimID ≠ "" ∧ Accounts n ri ri.claimID ev) := by
  cases h with
  | live i p st hl hp hst =>
    rw [hmail] at hst
    rw [hst.not_terminal] at hev
    cases hev
  | reported pre ev' hm hev' hc =>
    rw [hmail] at hm
    cases pre with
    | nil =>
      cases hm
      refine ⟨rfl, ?_⟩
      rcases hc with ⟨hr, -⟩ | ⟨c, ⟨hne, ⟨s, hs⟩ | ⟨-, rfl⟩⟩, hacc⟩
      · exact .inl hr
      · cases hs
      · exact .inr ⟨hne, hacc⟩
    | cons =>
      obtain ⟨rfl, -⟩ := List.cons.inj hm
      rcases hc with ⟨-, hpre⟩ | ⟨c, hheard, -⟩
      · cases hpre
      · rw [hheard.not_terminal] at hev
        cases hev

end

end AccessPoint
