/-
The record of a job that leaves the queue (internal/queue/actions.go, `archiveAndDelete`; internal/queue/history.go).

On removal and on completion alike the record is appended to the history, the history is flushed and the job is deleted
from the live queue. An append reaches the active segment, a flush seals it; after a crash the sealed records are there,
and perhaps some of the later ones. The schedd ignores what the two history calls report and deletes the job in any
case.

- `record_kept`: as long as no append and no flush fails, a job that was in the queue is there at every later point,
  across any number of crashes, or has a record that no crash can take away.
- `failed_append_loses_job`: after a failed append the job is in neither, and after a failed flush a crash leaves it in
  neither.
-/
import AccessPoint.Queue.Restart
import AccessPoint.Sched.Scheme

namespace AccessPoint

open ClassAdLib List Prog

variable {E : Type}

/-- the schedd and its spool directory: a crash keeps the first `sealed` records of the history -/
structure Disk (E : Type) where
  world : World E
  sealed : ℕ

namespace Disk

variable [ClassAdLib E]

inductive Event where
  | step (s : World.Step)
  /-- the schedd dies and is started again; `extra` records survive that were not sealed -/
  | crash (opts : Options) (extra : ℕ)

/-- a flush that does its work -/
def flushes (w : World E) (s : World.Step) : Bool :=
  match w.command s, s.choice with
  | some (_, .flush), some ch => ch.ok
  | _, _ => false

def step (cfg : SchedConfig E) (d : Disk E) : Event → Disk E
  | .step s => ⟨World.step cfg d.world s, if flushes d.world s then d.world.q.hist.length else d.sealed⟩
  | .crash opts extra =>
    let hist := d.world.q.hist.take (d.sealed + extra)
    ⟨World.start (Queue.openOn opts d.world.q.coll d.world.q.counter hist), hist.length⟩

/-- the schedd at startup -/
def start (q : Queue E) : Disk E := ⟨World.start q, q.hist.length⟩

def run (cfg : SchedConfig E) (d : Disk E) (evs : List Event) : Disk E := evs.foldl (step cfg) d

/-- the records no crash takes away -/
def records (d : Disk E) : List (Ad E) := d.world.q.hist.take d.sealed

/-- the history calls of a step report no error -/
def Succeeds (d : Disk E) : Event → Bool
  | .step s =>
    match d.world.command s, s.choice with
    | some (_, .append _ _), some ch => ch.ok
    | some (_, .flush), some ch => ch.ok
    | _, _ => true
  | .crash _ _ => true

end Disk

variable [ClassAdLib E]

/-- `ad` is the terminal record of `k` -/
def Ad.isRecord (k : JobKey) (ad : Ad E) : Bool :=
  ad.ids = k && (ad.int0 .jobStatus = statusRemoved || ad.int0 .jobStatus = statusCompleted)

/-! ## The way out of the queue -/

/-- how far a goroutine has got with the record of a job -/
inductive Custody where
  | none
  | appended (k : JobKey)
  | flushed (k : JobKey)

def custodyProtocol (E : Type) [ClassAdLib E] : Prog.Protocol (Cmd.Resp (E := E)) Custody where
  allowed := fun st c =>
    match c with
    | .append k ad => 0 ≤ k.proc → ad.isRecord k = true
    | .delete k => st = .flushed k
    | _ => True
  expects := fun _ c =>
    match c with
    | .get k => fun r : Option (Ad E) => ∀ ad, r = some ad → Sys.KeyedAt k ad
    | _ => fun _ => True
  next := fun st c =>
    match c with
    | .append k _ => fun _ => .appended k
    | .flush => fun _ =>
      match st with
      | .appended k => .flushed k
      | st => st
    | .delete _ => fun _ => .none
    | _ => fun _ => st

/-- the program starts and ends with nothing on its way out -/
abbrev Hands {α : Type} (p : Go E α) : Prop := Prog.wp (custodyProtocol E) (fun st _ => st = .none) p .none

namespace Hands

variable {α β : Type} {k : JobKey}

theorem bind {p : Go E α} {f : α → Go E β} (hp : Hands p) (hf : ∀ a, Hands (f a)) : Hands (p.bind f) := by
  refine wp_bind.2 (wp_mono (fun st a hst => ?_) hp)
  rw [hst]
  exact hf a

theorem get (k : JobKey) : Hands (Go.get k : Go E (Option (Ad E))) := ⟨trivial, fun _ _ => rfl⟩

theorem modify (k : JobKey) (fn : Ad E → Ad E) : Hands (Queue.modify k fn) := by
  refine ⟨trivial, fun r _ => ?_⟩
  cases r with
  | none => rfl
  | some => exact ⟨trivial, fun _ _ => rfl⟩

/-- commands other than the three of the way out -/
theorem of_calls {p : Go E α} (h : Prog.Calls (fun c => ∀ k ad, c ≠ .append k ad ∧ c ≠ .flush ∧ c ≠ .delete k) p) :
    Hands p := by
  induction p with
  | ret => rfl
  | call c f ih =>
    have hrest : ∀ r, Hands (f r) := fun r => ih r (h.2 r)
    cases c with
    | append k ad => exact absurd rfl (h.1 k ad).1
    | flush => exact absurd rfl (h.1 ⟨0, 0⟩ Ad.empty).2.1
    | delete k => exact absurd rfl (h.1 k Ad.empty).2.2
    | _ => exact ⟨trivial, fun r _ => hrest r⟩

theorem archiveAndDelete {ad : Ad E} (h : 0 ≤ k.proc → ad.isRecord k = true) : Hands (archiveAndDelete k ad) :=
  ⟨h, fun _ _ => ⟨trivial, fun _ _ => ⟨rfl, fun _ _ => rfl⟩⟩⟩

end Hands

theorem isRecord_of {k : JobKey} {ad ad' : Ad E} (hkeyed : Sys.KeyedAt k ad) (hids : ad.SameIds ad') {status : ℤ}
    (hstatus : ad' .jobStatus = some (lit (.int status))) (hterm : status = statusRemoved ∨ status = statusCompleted)
    (hk : 0 ≤ k.proc) : ad'.isRecord k = true := by
  have hid : ad'.ids = k := (hids.keyed hkeyed).ids hk
  rcases hterm with rfl | rfl <;> simp [Ad.isRecord, hid, Ad.int0_lit hstatus]

theorem removeAd_isRecord {k : JobKey} {ad : Ad E} (hkeyed : Sys.KeyedAt k ad) (req : ActionRequest) (status now : ℤ)
    (hk : 0 ≤ k.proc) : (Queue.removeAd req status now ad).isRecord k = true := by
  have hids : ad.SameIds (Queue.removeAd req status now ad) :=
    .of_butFor (removeAd_butFor req status now ad) (by decide) (by decide)
  have hstatus : Queue.removeAd req status now ad .jobStatus = some (lit (.int statusRemoved)) := by
    unfold Queue.removeAd
    split_ifs <;> rfl
  exact isRecord_of hkeyed hids hstatus (.inl rfl) hk

theorem complete_hands (k : JobKey) : Hands (Queue.complete k : Go E Unit) := by
  refine ⟨trivial, fun r hr => ?_⟩
  cases r with
  | none => rfl
  | some ad =>
    refine ⟨trivial, fun now _ => Hands.archiveAndDelete fun hk => ?_⟩
    exact isRecord_of (hr ad rfl) ⟨rfl, rfl⟩ rfl (.inr rfl) hk

theorem vacate_hands (hook : Bool) (k : JobKey) (status : ℤ) : Hands (Queue.vacate hook k status : Go E Unit) := by
  unfold Queue.vacate
  split_ifs
  · exact ⟨trivial, fun _ _ => ⟨trivial, fun _ _ => rfl⟩⟩
  · rfl

theorem applyAction_hands (q : Queue E) (hook : Bool) (k : JobKey) (req : ActionRequest) :
    Hands (q.applyAction hook k req) := by
  have hput : ∀ (ad : Ad E) (yes no : ℤ × List (ULog E)),
      Hands ((Go.put k ad).bind fun ok => if ok then .ret yes else .ret no) := by
    intro ad yes no
    refine ⟨trivial, fun ok _ => ?_⟩
    cases ok <;> rfl
  refine ⟨trivial, fun r hr => ?_⟩
  cases r with
  | none => rfl
  | some ad =>
    have hremove : ∀ now, Hands (Queue.removeJob hook k req true ad now) := by
      intro now
      refine wp_ite (fun _ => rfl) fun _ => wp_ite (fun _ => rfl) fun _ => ?_
      refine (vacate_hands hook k _).bind fun _ => Hands.bind (Hands.archiveAndDelete fun hk => ?_) fun _ => rfl
      exact removeAd_isRecord (hr ad rfl) req _ now hk
    refine wp_ite (fun _ => rfl) fun _ => ⟨trivial, fun now _ => ?_⟩
    cases req.kind with
    | hold =>
      refine wp_ite (fun _ => rfl) fun _ => wp_ite (fun _ => rfl) fun _ =>
        wp_ite (fun _ => rfl) fun _ => ?_
      exact (vacate_hands hook k _).bind fun _ => hput _ _ _
    | release =>
      refine wp_ite (fun _ => rfl) fun _ => wp_ite (fun _ => rfl) fun _ =>
        wp_ite (fun _ => rfl) fun _ => ?_
      exact hput _ _ _
    | remove | removeX => exact hremove now

namespace Sched

variable (cfg : SchedConfig E)

theorem hands_parts : Parts cfg (fun _ => True) fun _ p => Hands p where
  ret := fun _ => rfl
  bind := Hands.bind
  get := Hands.get
  clock := ⟨trivial, fun _ _ => rfl⟩
  scan := ⟨trivial, fun _ _ => rfl⟩
  expireSweep := ⟨trivial, fun _ _ => rfl⟩
  requeueToIdle := fun k _ =>
    requeueToIdle_of (fun _ => rfl) Hands.bind Hands.get ⟨trivial, fun _ _ => rfl⟩ fun _ => Hands.modify k _
  renewAll := fun now _ _ => renewAll_of (fun _ => rfl) Hands.bind Hands.get now fun k _ => Hands.modify k _

theorem jobFailed_hands (k : JobKey) (why : String) (count : Bool) : Hands (jobFailed cfg k why count) := by
  have hlog := (hands_parts cfg).logJob k
  refine ((hands_parts cfg).jobStatus k).bind fun _ => wp_ite (fun _ => rfl) fun _ => ?_
  refine ⟨trivial, fun now _ => ⟨trivial, fun r _ => ?_⟩⟩
  cases r with
  | none => exact hlog _
  | some => exact ⟨trivial, fun _ _ => hlog _⟩

theorem exitJob_hands (k : JobKey) (res : RunResult) : Hands (exitJob cfg k res) := by
  have hlog := (hands_parts cfg).logJob k
  have hdecision : ∀ now, Hands (exitDecision cfg k now) := by
    refine fun now => ⟨trivial, fun r _ => ?_⟩
    cases r <;> rfl
  refine ⟨trivial, fun now _ => (Hands.modify k _).bind fun _ => (hdecision now).bind fun d => ?_⟩
  cases d.action with
  | hold | requeue => exact (Hands.modify k _).bind fun _ => hlog _
  | remove => exact ⟨trivial, fun _ _ => rfl⟩
  | _ => exact (hlog _).bind fun _ => (complete_hands k).bind fun _ => rfl

theorem handle_hands (core : Core) (ev : Event) : Hands (handle cfg core ev).2 :=
  (hands_parts cfg).handle (fun _ _ => trivial) (fun k _ _ _ _ _ => Hands.modify k _)
    (fun k why count _ _ => jobFailed_hands cfg k why count) fun k res _ _ => exitJob_hands cfg k res

/-- a run leaves the store alone -/
theorem IsRun.hands {cfg : SchedConfig E} {k : JobKey} {p : Go E (ℤ × List (ULog E))} (h : IsRun cfg k p) :
    Hands p := by
  refine Hands.of_calls ((AccessPoint.IsRun.conduct h).calls.mono fun c hc => ?_)
  rcases hc with ⟨_, rfl, -⟩ | ⟨m, rfl⟩ | rfl | rfl <;> simp

end Sched

def custodyScheme (cfg : SchedConfig E) : Scheme cfg Custody where
  protocol := custodyProtocol E
  guest := .none
  enter := fun _ => .none
  event := fun _ => True
  tool := fun q k req => Prog.wp_mono (fun _ _ _ => trivial) (applyAction_hands q cfg.hook k req)
  policy := fun q k req =>
    Prog.wp_mono (fun _ _ _ => trivial)
      ((applyAction_hands q cfg.hook k req).bind fun r =>
        (⟨trivial, fun _ _ => rfl⟩ : Hands ((Go.submit _).bind fun _ => .ret r)))
  handle := fun core ev _ =>
    Prog.wp_mono (fun _ _ hfin r hr => Prog.wp_mono (fun _ _ _ => trivial) (hfin.2 r hr).hands)
      ((Sched.handle_runs cfg core ev).and_wp (Sched.handle_hands cfg core ev))
  sweep := fun core =>
    Prog.wp_mono (fun _ _ hfin r hr => Prog.wp_mono (fun _ _ _ => trivial) (hfin.2 r hr).hands)
      ((Sched.sweepExpired_runs cfg core).and_wp ((Sched.hands_parts cfg).sweepExpired fun _ _ _ _ => trivial))
  call := fun _ _ _ _ => trivial
  submits := fun _ _ _ _ _ _ => trivial

/-! ## The history through one command -/

namespace World

variable {w w' : World E} {t : ℕ} {ch : Choice} {c : Cmd E} {r : c.Resp}

/-- the record an append hands over -/
def appended : Cmd E → List (Ad E)
  | .append _ ad => [ad]
  | _ => []

omit [ClassAdLib E] in
theorem exec_hist (hx : w.exec t ch c = some (r, w')) (hok : ∀ k ad, c = .append k ad → ch.ok = true) :
    w'.q.hist = w.q.hist ++ appended c := by
  cases c with
  | append k ad =>
    simp only [exec, hok k ad rfl, if_true] at hx
    cases hx
    rfl
  | put | await =>
    simp only [exec] at hx
    split_ifs at hx <;> cases hx <;> exact (append_nil _).symm
  | teardown | submit =>
    cases hx
    rw [(submit_frame _ _).2.2.2.2]
    exact (append_nil _).symm
  | _ => cases hx; exact (append_nil _).symm

omit [ClassAdLib E] in
theorem exec_keeps_job (hx : w.exec t ch c = some (r, w')) {k : JobKey} (hk : k ∈ w.q.coll) (hc : c ≠ .delete k) :
    k ∈ w'.q.coll := by
  cases c with
  | put =>
    simp only [exec] at hx
    split_ifs at hx <;> cases hx
    · exact (AList.mem_insert _).2 (.inr hk)
    · exact hk
  | delete =>
    cases hx
    exact AList.mem_erase.2 ⟨fun he => hc (he ▸ rfl), hk⟩
  | append | await =>
    simp only [exec] at hx
    split_ifs at hx <;> cases hx <;> exact hk
  | teardown | submit =>
    cases hx
    rw [(submit_frame _ _).2.2.2.2]
    exact hk
  | _ => cases hx; exact hk

end World

namespace Queue

/-- a record of `k` is among the first `n` of the history -/
def Recorded (q : Queue E) (n : ℕ) (k : JobKey) : Prop := ∃ ad ∈ q.hist.take n, ad.isRecord k = true

theorem Recorded.mono {q q' : Queue E} {n n' : ℕ} {k : JobKey} (h : q.Recorded n k) (hist : List (Ad E))
    (hq : q'.hist = q.hist ++ hist) (hle : n ≤ q.hist.length) (hn : n ≤ n') : q'.Recorded n' k := by
  obtain ⟨ad, had, hrec⟩ := h
  refine ⟨ad, ?_, hrec⟩
  have hsame : q'.hist.take n = q.hist.take n := by rw [hq, take_append_of_le_length hle]
  rw [← hsame] at had
  exact take_subset_take_left _ hn had

end Queue

/-! ## Whole lives -/

namespace Disk

variable {cfg : SchedConfig E} {k : JobKey} {n n' : ℕ}

/-- what a goroutine's place on the way out says about the history, of which `n` records are sealed -/
def Backed (q : Queue E) (n : ℕ) : Custody → Prop
  | .none => True
  | .appended k => 0 ≤ k.proc → q.Recorded q.hist.length k
  | .flushed k => 0 ≤ k.proc → q.Recorded n k

/-- `k` is in the queue or has a sealed record -/
def Kept (k : JobKey) (n : ℕ) (q : Queue E) : Prop := n ≤ q.hist.length ∧ (k ∈ q.coll ∨ q.Recorded n k)

def keptView (k : JobKey) (n : ℕ) : View E Custody where
  shared := Kept k n
  core := fun q _ st => Backed q n st
  other := fun q st => Backed q n st

theorem Backed.mono {q q' : Queue E} {st : Custody} (h : Backed q n st) (hist : List (Ad E))
    (hq : q'.hist = q.hist ++ hist) (hle : n ≤ q.hist.length) (hn : n ≤ n') : Backed q' n' st := by
  cases st with
  | none => trivial
  | appended => exact fun hk => (h hk).mono hist hq le_rfl (by rw [hq, length_append]; omega)
  | flushed => exact fun hk => (h hk).mono hist hq hle hn

/-- **One command.** `n'` records are sealed after it. -/
theorem exec_kept {w w' : World E} {t : ℕ} {ch : Choice} {c : Cmd E} {r : c.Resp} (hx : w.exec t ch c = some (r, w'))
    (hkeyed : w.q.coll.Keyed) (hk : 0 ≤ k.proc) (hkept : Kept k n w.q) (happend : ∀ k ad, c = .append k ad →
      ch.ok = true)
    (hflush : c = .flush → n' = w.q.hist.length) (hsame : c ≠ .flush → n' = n) {st : Custody} (hst : Backed w.q n st)
    (hall : (custodyProtocol E).allowed st c) :
    (custodyProtocol E).expects st c r ∧ Kept k n' w'.q ∧ Backed w'.q n' ((custodyProtocol E).next st c r) ∧
      ∀ st', Backed w.q n st' → Backed w'.q n' st' := by
  have hhist := World.exec_hist hx happend
  have hn : n ≤ n' := by
    by_cases hc : c = .flush
    · rw [hflush hc]; exact hkept.1
    · exact (hsame hc).ge
  have hmono : ∀ st', Backed w.q n st' → Backed w'.q n' st' := fun st' h => h.mono _ hhist hkept.1 hn
  have hle : n' ≤ w'.q.hist.length := by
    have hlen : w.q.hist.length ≤ w'.q.hist.length := by rw [hhist, length_append]; omega
    by_cases hc : c = .flush
    · rw [hflush hc]; exact hlen
    · rw [hsame hc]; exact hkept.1.trans hlen
  have hstays : Kept k n' w'.q := by
    refine ⟨hle, ?_⟩
    rcases hkept.2 with hin | hrec
    · by_cases hc : c = .delete k
      · -- a delete comes after the goroutine's own flush
        subst hc
        obtain rfl : st = .flushed k := hall
        exact .inr ((hst hk).mono _ hhist hkept.1 hn)
      · exact .inl (World.exec_keeps_job hx hin hc)
    · exact .inr (hrec.mono _ hhist hkept.1 hn)
  refine ⟨?_, hstays, ?_, hmono⟩
  · cases c with
    | get => cases hx; exact fun ad had => hkeyed.get had
    | _ => trivial
  · cases c with
    | append k' ad =>
      intro hk'
      refine ⟨ad, ?_, hall hk'⟩
      rw [take_length, hhist]
      exact mem_append_right _ mem_cons_self
    | flush =>
      cases st with
      | none => trivial
      | appended =>
        intro hk'
        obtain ⟨ad, had, hrec⟩ := hst hk'
        have hold : w'.q.hist = w.q.hist := hhist.trans (append_nil _)
        refine ⟨ad, ?_, hrec⟩
        rw [hflush rfl, hold]
        exact had
      | flushed => exact hmono _ hst
    | delete => trivial
    | _ => exact hmono st hst

theorem keptView_fresh (cfg : SchedConfig E) (k : JobKey) (n : ℕ) : (custodyScheme cfg).Fresh (keptView k n) where
  guest := fun _ _ => trivial
  enter := fun _ _ _ => trivial

/-- the job is accounted for, and every goroutine is somewhere on the way out of the queue or not on it -/
structure Safe (cfg : SchedConfig E) (k : JobKey) (d : Disk E) : Prop where
  single : World.Single cfg d.world
  follows : World.Follows (custodyScheme cfg) (keptView k d.sealed) d.world

theorem step_upholds {d : Disk E} {s : World.Step} (hk : 0 ≤ k.proc) (h : Safe cfg k d)
    (hok : d.Succeeds (.step s) = true) :
    World.Upholds (custodyScheme cfg) (keptView k d.sealed) (keptView k (step cfg d (.step s)).sealed) d.world s := by
  have hshared : Kept k d.sealed d.world.q := h.follows.shared
  have hsealed : d.sealed ≤ (step cfg d (.step s)).sealed ∧ (step cfg d (.step s)).sealed ≤ d.world.q.hist.length := by
    simp only [step]
    split_ifs
    · exact ⟨hshared.1, le_rfl⟩
    · exact ⟨le_rfl, hshared.1⟩
  have hquiet : ∀ st, Backed d.world.q d.sealed st → Backed d.world.q (step cfg d (.step s)).sealed st := fun st hst =>
    hst.mono [] (append_nil _).symm hshared.1 hsealed.1
  have hcommand : ∀ t ch c r w', s.choice = some ch → d.world.command s = some (t, c) →
      d.world.exec t ch c = some (r, w') → ∀ st, Backed d.world.q d.sealed st → (custodyProtocol E).allowed st c →
        (custodyProtocol E).expects st c r ∧ Kept k (step cfg d (.step s)).sealed w'.q ∧
          Backed w'.q (step cfg d (.step s)).sealed ((custodyProtocol E).next st c r) ∧
            ∀ st', Backed d.world.q d.sealed st' → Backed w'.q (step cfg d (.step s)).sealed st' := by
    intro t ch c r w' hch hcmd hx st hst hall
    refine exec_kept hx h.single.keyed hk hshared ?_ ?_ ?_ hst hall
    · rintro k' ad rfl
      simpa only [Succeeds, hcmd, hch] using hok
    · rintro rfl
      have hflushes : flushes d.world s = true := by
        simp only [Succeeds, hcmd, hch] at hok
        simpa only [flushes, hcmd, hch] using hok
      simp only [step, hflushes, if_true]
    · intro hc
      have hflushes : flushes d.world s = false := by
        simp only [flushes, hcmd, hch]
        cases c with
        | flush => exact absurd rfl hc
        | _ => rfl
      simp only [step, hflushes, Bool.false_eq_true, if_false]
  refine ⟨⟨hsealed.2, ?_⟩, hquiet, hquiet, ?_, ?_⟩
  · exact hshared.2.imp id fun hrec => hrec.mono [] (append_nil _).symm hshared.1 hsealed.1
  · rintro ch c r w' rfl hcmd hx st hst hall
    exact hcommand 0 ch c r w' rfl hcmd hx st hst hall
  · rintro i ch c r w' rfl hcmd hx st hst hall
    obtain ⟨hexp, hkept, hself, hothers⟩ := hcommand i ch c r w' rfl hcmd hx st hst hall
    exact ⟨hexp, hkept, hself, hothers, hothers⟩

theorem step_safe (hk : 0 ≤ k.proc) {d : Disk E} {ev : Event} (hok : d.Succeeds ev = true) (h : Safe cfg k d) :
    Safe cfg k (step cfg d ev) := by
  cases ev with
  | step s =>
    exact ⟨World.act_single (a := .sched s) trivial h.single,
      h.follows.step (keptView_fresh cfg k _) (step_upholds hk h hok)⟩
  | crash opts extra =>
    obtain ⟨_, hin⟩ := h.follows.shared
    have hkeyed : (Queue.openOn opts d.world.q.coll d.world.q.counter
        (d.world.q.hist.take (d.sealed + extra))).coll.Keyed := h.single.keyed
    refine ⟨World.start_single cfg hkeyed, World.start_follows ⟨le_rfl, hin.imp id ?_⟩⟩
    -- what was sealed is a part of what survives
    rintro ⟨ad, had, hrec⟩
    refine ⟨ad, ?_, hrec⟩
    change ad ∈ take (d.world.q.hist.take (d.sealed + extra)).length (d.world.q.hist.take (d.sealed + extra))
    rw [take_length]
    exact take_subset_take_left _ (Nat.le_add_right _ _) had

/-- **No record is lost.** A job that is in the queue when the schedd starts is, in every state of every run with any
number of crashes, in the queue or has a terminal record among those that no crash takes away, as long as every append
to the history and every flush succeeds. -/
theorem record_kept (cfg : SchedConfig E) (q : Queue E) (hq : q.coll.Keyed) (evs : List Event)
    (hok : Runs.Meets (step cfg) (fun d ev => d.Succeeds ev = true) (start q) evs) (k : JobKey) (hk : 0 ≤ k.proc)
    (hin : k ∈ q.coll) :
    k ∈ (run cfg (start q) evs).world.q.coll ∨ ∃ ad ∈ (run cfg (start q) evs).records, ad.isRecord k = true := by
  have hstart : Safe cfg k (start q) := ⟨World.start_single cfg hq, World.start_follows ⟨le_rfl, .inl hin⟩⟩
  have h := Runs.foldl_inv_of (P := Safe cfg k) (fun d ev => step_safe hk) hstart hok
  exact h.follows.shared.2

/-! ## Alice's job -/

/-- alice's job runs and exits, and the core completes it; what the append and the flush of its record report -/
def completing (append flush : Bool) : List Event :=
  let steps : List World.Step := started ++ List.replicate 2 (.thread 1 smooth) ++ [.take] ++
    List.replicate 7 (.core smooth) ++
      [.core { smooth with ok := append }, .core { smooth with ok := flush }, .core smooth]
  steps.map .step

theorem completed_record_kept :
    (⟨1, 0⟩ : JobKey) ∈ aliceQueue.coll ∧
      ((⟨1, 0⟩ : JobKey) ∈
        (run poolSched (start aliceQueue) (completing true true ++ [.crash poolOptions 0])).world.q.coll ∨
        ∃ ad ∈ (run poolSched (start aliceQueue) (completing true true ++ [.crash poolOptions 0])).records,
          ad.isRecord ⟨1, 0⟩ = true) :=
  ⟨by decide +kernel,
    record_kept poolSched aliceQueue (fun _ _ =>
      Sys.reachable_wellKeyed aliceQueue_reachable) _ (by decide +kernel) ⟨1, 0⟩
      (by decide) (by decide +kernel)⟩

/-- **A failed history call loses the job.** With a failed append it is gone when the handler ends; with a failed flush
it is gone after a crash. -/
theorem failed_append_loses_job :
    ((⟨1, 0⟩ : JobKey) ∉ (run poolSched (start aliceQueue) (completing false true)).world.q.coll ∧
      (run poolSched (start aliceQueue) (completing false true)).world.q.hist.length = 0) ∧
    (⟨1, 0⟩ : JobKey) ∉ (run poolSched (start aliceQueue) (completing true false ++
      [.crash poolOptions 0])).world.q.coll ∧
      (run poolSched (start aliceQueue) (completing true false ++ [.crash poolOptions 0])).world.q.hist.length = 0 := by
  decide +kernel

end Disk

end AccessPoint
