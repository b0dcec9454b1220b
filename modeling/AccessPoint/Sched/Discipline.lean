/-
How the goroutines of the schedd use the job store.

Every write of a job is based on the goroutine's own last read: a `Put` or a history `Append` of `k` follows a `Get` of
`k` that found it, with no other store command in between, and a `Delete` of `k` follows the goroutine's own `Append` of
`k`. What the schedd does not do is keep others out between the two. `storeProtocol` is this discipline as an automaton,
with the keys a program may write as a parameter; `Tidy` says that a program keeps to it.

- `handle_tidy`, `sweepExpired_tidy`: every handler of the core, and the jobs it may write.
- `applyAction_tidy`, `runJob_tidy`, `reconnectJob_tidy`: the other goroutines.
-/
import AccessPoint.Sched.Parts

namespace AccessPoint

open ClassAdLib Prog

/-- what a goroutine holds of the store -/
inductive Copy where
  | none
  /-- the ad of `k` as its last `Get` found it -/
  | read (k : JobKey)
  /-- the record of `k` is in the history, its key not yet deleted -/
  | archiving (k : JobKey)
deriving DecidableEq, Repr

/-- not between an `Append` and its `Delete` -/
def Copy.Settled (s : Copy) : Prop := ∀ k, s ≠ .archiving k

theorem Copy.settled_none : Copy.none.Settled := fun _ h => by cases h

theorem Copy.settled_read (k : JobKey) : (Copy.read k).Settled := fun _ h => by cases h

/-- writes follow the goroutine's own read; only keys in `may` are written -/
def storeProtocol (E : Type) (may : JobKey → Prop) : Prog.Protocol (Cmd.Resp (E := E)) Copy where
  allowed := fun s c =>
    match c with
    | .get _ => s.Settled
    | .put k _ => may k ∧ s = .read k
    | .append k _ => may k ∧ s = .read k
    | .delete k => may k ∧ s = .archiving k
    | _ => True
  expects := fun _ _ _ => True
  next := fun s c =>
    match c with
    | .get k => fun r : Option (Ad E) => if r.isSome then .read k else .none
    | .put _ _ => fun _ => .none
    | .append k _ => fun _ => .archiving k
    | .delete _ => fun _ => .none
    | _ => fun _ => s

/-- from a settled state the program keeps to the discipline and ends settled -/
def Tidy {E α : Type} (may : JobKey → Prop) (p : Go E α) : Prop :=
  ∀ s : Copy, s.Settled → Prog.wp (storeProtocol E may) (fun s' _ => s'.Settled) p s

namespace Tidy

variable {E α β : Type} {may : JobKey → Prop}

theorem ret (a : α) : Tidy may (.ret a : Go E α) := fun _ hs => hs

theorem bind {p : Go E α} {f : α → Go E β} (hp : Tidy may p) (hf : ∀ a, Tidy may (f a)) : Tidy may (p.bind f) :=
  fun s hs => wp_bind.2 (wp_mono (fun s' a hs' => hf a s' hs') (hp s hs))

theorem ite {c : Prop} [Decidable c] {p p' : Go E α} (h : Tidy may p) (h' : Tidy may p') :
    Tidy may (if c then p else p') := by
  split_ifs
  · exact h
  · exact h'

/-- a read whose ad is only looked at -/
theorem get (k : JobKey) : Tidy may (Go.get k : Go E (Option (Ad E))) := by
  refine fun s hs => ⟨hs, fun r _ => ?_⟩
  cases r with
  | none => exact Copy.settled_none
  | some => exact Copy.settled_read k

theorem clock : Tidy may (Go.clock : Go E ℤ) := fun _ hs => ⟨trivial, fun _ _ => hs⟩

theorem submit (ev : Event) : Tidy may (Go.submit ev : Go E Unit) := fun _ hs => ⟨trivial, fun _ _ => hs⟩

theorem scan : Tidy may (Go.scan : Go E (List (Ad E))) := fun _ hs => ⟨trivial, fun _ _ => hs⟩

theorem expireSweep : Tidy may (Go.expireSweep : Go E (List String)) := fun _ hs => ⟨trivial, fun _ _ => hs⟩

theorem claim (m : Match) : Tidy may (Go.claim m : Go E ClaimOutcome) := fun _ hs => ⟨trivial, fun _ _ => hs⟩

theorem serve : Tidy may (Go.serve : Go E ServeOutcome) := fun _ hs => ⟨trivial, fun _ _ => hs⟩

theorem reattach : Tidy may (Go.reattach : Go E ReattachOutcome) := fun _ hs => ⟨trivial, fun _ _ => hs⟩

end Tidy

/-! ## Rewrites and actions -/

section

variable {E : Type} {may : JobKey → Prop} {k : JobKey}

/-- from its own copy of `k` on -/
theorem archiveAndDelete_wp (hk : may k) (ad : Ad E) :
    Prog.wp (storeProtocol E may) (fun s _ => s.Settled) (archiveAndDelete k ad) (.read k) :=
  ⟨⟨hk, rfl⟩, fun _ _ => ⟨trivial, fun _ _ => ⟨⟨hk, rfl⟩, fun _ _ => Copy.settled_none⟩⟩⟩

/-- the vacate hook leaves the copy alone -/
theorem vacate_wp {α : Type} {Q : Copy → α → Prop} (hook : Bool) (status : ℤ) {f : Unit → Go E α} {s : Copy}
    (hf : Prog.wp (storeProtocol E may) Q (f ()) s) :
    Prog.wp (storeProtocol E may) Q ((Queue.vacate hook k status).bind f) s := by
  unfold Queue.vacate
  split_ifs
  · exact ⟨trivial, fun _ _ => ⟨trivial, fun _ _ => hf⟩⟩
  · exact hf

theorem modify_tidy (hk : may k) (fn : Ad E → Ad E) : Tidy may (Queue.modify k fn) := by
  refine fun s hs => ⟨hs, fun r _ => ?_⟩
  cases r with
  | none => exact Copy.settled_none
  | some => exact ⟨⟨hk, rfl⟩, fun _ _ => Copy.settled_none⟩

variable (cfg : SchedConfig E)

theorem Sched.logJob_tidy (k : JobKey) (f : Ad E → ULog E) : Tidy may (Sched.logJob cfg k f) := by
  refine Tidy.ite ((Tidy.get k).bind fun r => ?_) (Tidy.ret _)
  cases r <;> exact Tidy.ret _

theorem runJob_tidy (m : Match) : Tidy may (runJob m : Go E (ℤ × List (ULog E))) := by
  refine (Tidy.claim m).bind fun r => ?_
  cases r with
  | failed | panicked => exact (Tidy.submit _).bind fun _ => Tidy.ret _
  | activated =>
    refine (Tidy.submit _).bind fun _ => Tidy.serve.bind fun r => ?_
    cases r <;> exact (Tidy.submit _).bind fun _ => Tidy.ret _

variable [ClassAdLib E]

theorem jobStatus_tidy (k : JobKey) : Tidy may (Queue.jobStatus k : Go E ℤ) := by
  refine (Tidy.get k).bind fun r => ?_
  cases r <;> exact Tidy.ret _

theorem complete_tidy (hk : may k) : Tidy may (Queue.complete k : Go E Unit) := by
  refine fun s hs => ⟨hs, fun r _ => ?_⟩
  cases r with
  | none => exact Copy.settled_none
  | some => exact ⟨trivial, fun now _ => archiveAndDelete_wp hk _⟩

/-- an action from its own copy of `k` on -/
theorem holdJob_wp (hk : may k) (hook : Bool) (req : ActionRequest) (apply : Bool) (ad : Ad E) (now : ℤ) :
    Prog.wp (storeProtocol E may) (fun s _ => s.Settled) (Queue.holdJob hook k req apply ad now) (.read k) := by
  have hread := Copy.settled_read k
  refine wp_ite (fun _ => hread) fun _ => wp_ite (fun _ => hread) fun _ =>
    wp_ite (fun _ => hread) fun _ => ?_
  refine vacate_wp (s := .read k) hook _ (wp_bind.2 ⟨⟨hk, rfl⟩, fun ok _ => ?_⟩)
  cases ok <;> exact Copy.settled_none

theorem releaseJob_wp (hk : may k) (req : ActionRequest) (apply : Bool) (ad : Ad E) (now : ℤ) :
    Prog.wp (storeProtocol E may) (fun s _ => s.Settled) (Queue.releaseJob k req apply ad now) (.read k) := by
  have hread := Copy.settled_read k
  refine wp_ite (fun _ => hread) fun _ => wp_ite (fun _ => hread) fun _ =>
    wp_ite (fun _ => hread) fun _ => ?_
  refine wp_bind.2 ⟨⟨hk, rfl⟩, fun ok _ => ?_⟩
  cases ok <;> exact Copy.settled_none

theorem removeJob_wp (hk : may k) (hook : Bool) (req : ActionRequest) (apply : Bool) (ad : Ad E) (now : ℤ) :
    Prog.wp (storeProtocol E may) (fun s _ => s.Settled) (Queue.removeJob hook k req apply ad now) (.read k) := by
  have hread := Copy.settled_read k
  refine wp_ite (fun _ => hread) fun _ => wp_ite (fun _ => hread) fun _ => ?_
  refine vacate_wp (s := .read k) hook _ (wp_bind.2 ?_)
  exact wp_mono (fun s' _ hs' => hs') (archiveAndDelete_wp hk _)

theorem applyAction_tidy (hk : may k) (q : Queue E) (hook : Bool) (req : ActionRequest) :
    Tidy may (q.applyAction hook k req) := by
  refine fun s hs => wp_bind.2 ⟨hs, fun r _ => ?_⟩
  cases r with
  | none => exact Copy.settled_none
  | some ad =>
    refine wp_ite (fun _ => Copy.settled_read k) fun _ => ⟨trivial, fun now _ => ?_⟩
    cases hkind : req.kind with
    | hold => exact holdJob_wp hk hook req true ad now
    | release => exact releaseJob_wp hk req true ad now
    | remove | removeX => exact removeJob_wp hk hook req true ad now

theorem reconnectJob_tidy (k : JobKey) (claimID : String) (job : Ad E) : Tidy may (reconnectJob cfg k claimID job) := by
  refine Tidy.reattach.bind fun r => ?_
  cases r <;> exact (Tidy.submit _).bind fun _ => Tidy.ret _

/-! ## Handlers -/

namespace Sched

theorem jobFailed_tidy (hk : may k) (cfg : SchedConfig E) (why : String) (count : Bool) :
    Tidy may (jobFailed cfg k why count) := by
  refine (jobStatus_tidy k).bind fun _ => Tidy.ite (Tidy.ret _) (Tidy.clock.bind fun now => ?_)
  refine fun s hs => ⟨hs, fun r _ => ?_⟩
  cases r with
  | none => exact logJob_tidy cfg k _ _ Copy.settled_none
  | some => exact ⟨⟨hk, rfl⟩, fun _ _ => logJob_tidy cfg k _ _ Copy.settled_none⟩

theorem exitJob_tidy (hk : may k) (cfg : SchedConfig E) (res : RunResult) : Tidy may (exitJob cfg k res) := by
  refine Tidy.clock.bind fun now => (modify_tidy hk _).bind fun _ => ?_
  have hdecision : Tidy may (exitDecision cfg k now) := by
    refine (Tidy.get k).bind fun r => ?_
    cases r <;> exact Tidy.ret _
  refine hdecision.bind fun d => ?_
  cases d.action with
  | hold | requeue => exact (modify_tidy hk _).bind fun _ => logJob_tidy cfg k _
  | remove => exact (Tidy.submit _).bind fun _ => Tidy.ret _
  | _ => exact (logJob_tidy cfg k _).bind fun _ => (complete_tidy hk).bind fun _ => Tidy.ret _

theorem tidy_parts (may : JobKey → Prop) : Parts cfg may fun _ p => Tidy may p where
  ret := Tidy.ret
  bind := Tidy.bind
  get := Tidy.get
  clock := Tidy.clock
  scan := Tidy.scan
  expireSweep := Tidy.expireSweep
  requeueToIdle := fun _ hk => requeueToIdle_of Tidy.ret Tidy.bind Tidy.get Tidy.clock fun _ => modify_tidy hk _
  renewAll := fun now _ hks => renewAll_of Tidy.ret Tidy.bind Tidy.get now fun k hk => modify_tidy (hks k hk) _

/-- a sweep writes the jobs of runs that are not vacated -/
theorem sweepExpired_tidy {core : Core} (hrun : ∀ k ri, core.running.lookup k = some ri → ri.vacated = false → may k) :
    Tidy may (sweepExpired cfg core).2 :=
  (tidy_parts cfg may).sweepExpired hrun

/-- **Every handler keeps to the discipline.** -/
theorem handle_tidy (core : Core) (ev : Event) (hmay : ∀ k, writes core ev k → may k) :
    Tidy may (handle cfg core ev).2 := by
  refine (tidy_parts cfg may).handle hmay ?_ (fun k why count hk _ => jobFailed_tidy (hmay k hk) cfg why count) ?_
  · rintro k slotName claimID rfl claim now
    exact modify_tidy (hmay k rfl) _
  · rintro k res err rfl
    exact exitJob_tidy (hmay k rfl) cfg res

end Sched

end

end AccessPoint
