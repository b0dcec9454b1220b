/-
Concurrent updates of one job (`Queue.Modify` of internal/queue/sched.go, hold and release of internal/queue/actions.go,
and their callers in the scheduler core, the spool handlers and the output recorder).

Each operation reads the flattened ad, computes, and puts the whole ad back; nothing ties the two store steps together.
The operations are instances of `Serial.Machine` over the store.

- `updates_serializable`: if no operation puts an ad that another put has overtaken, the store and all reports are those
  of the operations one after the other in some order, and an attribute that only one successful operation sets is
  there.
- `modify_loses_hold`: a hold that reported success between the read and the write of a `Modify` is lost.
-/
import AccessPoint.Core.Serial
import AccessPoint.Sched.World

namespace AccessPoint

open ClassAdLib List Prog

/-- an operation on a job; `Modify` comes with any function on ads -/
inductive JobOp (E : Type) where
  | modify (fn : Ad E → Ad E)
  | hold (req : ActionRequest)
  | release (req : ActionRequest)

/-- what an operation reports -/
inductive Report (E : Type) where
  | modified (ok : Bool)
  | acted (code : ℤ) (log : List (ULog E))

def Report.success {E : Type} : Report E → Bool
  | .modified ok => ok
  | .acted code _ => code = arSuccess

/-- the operation has ended and reported success -/
def succeeded {E : Type} : Go E (Report E) → Bool
  | .ret r => r.success
  | .call _ _ => false

theorem succeeded_iff {E : Type} {p : Go E (Report E)} :
    succeeded p = true ↔ ∃ r, p = .ret r ∧ r.success = true := by
  cases p with
  | ret | call => simp [succeeded]

/-- the operations as programs that read the store once and write it at most once -/
def updates (E : Type) : Serial.Machine (Go E (Report E)) (Store E) Choice where
  step := fun p ch s =>
    match p with
    | .ret r => (.ret r, s)
    | .call c k => (k (s.perform ch c).1, (s.perform ch c).2)
  access := fun p ch =>
    match p with
    | .call (.get _) _ => .read
    | .call .scan _ => .read
    | .call (.put _ _) _ => if ch.ok then .write else .quiet
    | .call (.delete _) _ => .write
    | _ => .quiet

section

variable {E : Type} [ClassAdLib E]

namespace JobOp

/-- the goroutine of an operation on `k` -/
def prog (q : Queue E) (hook : Bool) (k : JobKey) : JobOp E → Go E (Report E)
  | .modify fn => do
    let ok ← Queue.modify k fn
    pure (.modified ok)
  | .hold req => do
    let r ← q.applyAction hook k { req with kind := .hold }
    pure (.acted r.1 r.2)
  | .release req => do
    let r ← q.applyAction hook k { req with kind := .release }
    pure (.acted r.1 r.2)

/-- the ads an operation may put when it has read `ad` -/
def Puts : JobOp E → Ad E → Ad E → Prop
  | .modify fn, ad, ad' => ad' = fn ad
  | .hold req, ad, ad' => ∃ now, ad' = Queue.holdAd { req with kind := .hold } (ad.int0 .jobStatus) now ad
  | .release req, ad, ad' => ∃ now, ad' = Queue.releaseAd { req with kind := .release } now ad

/-- whatever it reads, the operation sets `a` to `e` -/
def Sets (op : JobOp E) (a : Attr) (e : E) : Prop := ∀ ad ad', op.Puts ad ad' → ad' a = some e

/-- whatever it reads, the operation leaves `a` as it is -/
def Leaves (op : JobOp E) (a : Attr) : Prop := ∀ ad ad', op.Puts ad ad' → ad' a = ad a

end JobOp

end

/-! ## The course of an operation -/

/-- how far an operation has come -/
inductive Phase (E : Type) where
  | start
  | read (ad : Ad E)
  | written (ad ad' : Ad E)
  /-- the job was not there, or the put failed -/
  | idle

section

variable {E : Type} {k : JobKey} {puts : Ad E → Ad E → Prop}

/-- one read of `k`, at the start, and at most one put of what `puts` relates to it -/
def updateProtocol (k : JobKey) (puts : Ad E → Ad E → Prop) : Prog.Protocol (Cmd.Resp (E := E)) (Phase E) where
  allowed := fun ph c =>
    match c, ph with
    | .get k', .start => k' = k
    | .put k' ad', .read ad => k' = k ∧ puts ad ad'
    | .clock, .read _ => True
    | .teardown _, .read _ => True
    | .await, .read _ => True
    | _, _ => False
  expects := fun _ _ _ => True
  next := fun ph c =>
    match c with
    | .get _ => fun r : Option (Ad E) => match r with
      | some ad => .read ad
      | none => .idle
    | .put _ ad' => fun ok : Bool => match ok, ph with
      | true, .read ad => .written ad ad'
      | _, _ => .idle
    | _ => fun _ => ph

/-- an operation ends after its read, and reports success after a put -/
def Ended : Phase E → Report E → Prop
  | .start, _ => False
  | .written _ _, _ => True
  | _, r => r.success = false

/-- the rest of an operation that has come to `ph` -/
abbrev Follows (k : JobKey) (puts : Ad E → Ad E → Prop) (p : Go E (Report E)) (ph : Phase E) : Prop :=
  Prog.wp (updateProtocol k puts) Ended p ph

def Unbegun (p : Go E (Report E)) : Prop := ∃ k puts, Follows k puts p .start

def Begun (p : Go E (Report E)) : Prop := ∃ k puts ph, ph ≠ .start ∧ Follows k puts p ph

/-- nothing is left to do -/
def Spent (p : Go E (Report E)) : Prop := ∃ r, p = .ret r

/-- after its put, or when there is nothing to put, an operation only returns -/
theorem follows_spent {p : Go E (Report E)} {ph : Phase E} (h : Follows k puts p ph)
    (hph : ph = .idle ∨ ∃ ad ad', ph = .written ad ad') : Spent p := by
  cases p with
  | ret r => exact ⟨r, rfl⟩
  | call c =>
    have hall := h.1
    rcases hph with rfl | ⟨ad, ad', rfl⟩ <;> cases c <;> exact absurd hall id

/-- the next phase of a command, whatever the response, is not the start -/
theorem next_ne_start {ph : Phase E} (hph : ph ≠ .start) (c : Cmd E) (r : c.Resp) :
    (updateProtocol k puts).next ph c r ≠ .start := by
  cases c with
  | get => cases r <;> simp [updateProtocol]
  | put => cases r <;> cases ph <;> simp [updateProtocol]
  | _ => exact hph

theorem updates_spec (E : Type) : (updates E).Updates Unbegun Begun Spent := by
  refine ⟨fun p hp ch => ?_, fun p hp ch hw s => ?_, fun p hp ch hw => ?_, fun p hp ch => ?_⟩
  · obtain ⟨k, puts, hp⟩ := hp
    cases p with
    | ret => exact absurd hp id
    | call c =>
      have hall := hp.1
      cases c with
      | get k' =>
        refine ⟨rfl, fun s => ⟨rfl, k, puts, _, ?_, hp.2 (s.get k') trivial⟩⟩
        cases s.get k' <;> simp [updateProtocol]
      | _ => exact absurd hall id
  · obtain ⟨k, puts, ph, hph, hp⟩ := hp
    cases p with
    | ret => cases hw
    | call c =>
      have hall := hp.1
      cases c with
      | put k' ad' =>
        cases ph with
        | read ad =>
          refine follows_spent (hp.2 _ trivial) ?_
          simp only [Store.perform]
          split_ifs
          · exact .inr ⟨ad, ad', rfl⟩
          · exact .inl rfl
        | _ => exact absurd hall id
      | delete => cases ph <;> exact absurd hall id
      | _ => cases hw
  · obtain ⟨k, puts, ph, hph, hp⟩ := hp
    cases p with
    | ret => exact ⟨rfl, fun s => ⟨rfl, ⟨k, puts, ph, hph, hp⟩, fun _ => rfl⟩⟩
    | call c f =>
      have hall := hp.1
      have hbegun : ∀ r, Begun (f r) := fun r => ⟨k, puts, _, next_ne_start hph c r, hp.2 r trivial⟩
      cases c with
      | put =>
        have hok : ch.ok = false := by
          cases ho : ch.ok with
          | false => rfl
          | true => exact absurd (by simp [updates, ho]) hw
        refine ⟨by simp [updates, hok], fun s => ⟨by simp [updates, Store.perform, hok], hbegun _, fun s' => ?_⟩⟩
        simp [updates, Store.perform, hok]
      | clock | teardown | await => exact ⟨rfl, fun s => ⟨rfl, hbegun _, fun _ => rfl⟩⟩
      | get => cases ph with
        | start => exact absurd rfl hph
        | _ => exact absurd hall id
      | _ => cases ph <;> exact absurd hall id
  · obtain ⟨r, rfl⟩ := hp
    exact ⟨rfl, fun s => ⟨rfl, ⟨r, rfl⟩, fun _ => rfl⟩⟩

/-- what an operation that started at `s₁` and has come to `ph` has done to the store -/
def Phase.Effect (k : JobKey) (puts : Ad E → Ad E → Prop) (s₁ s : Store E) : Phase E → Prop
  | .read ad => s = s₁ ∧ s₁.get k = some ad
  | .written ad ad' => s₁.get k = some ad ∧ puts ad ad' ∧ s = s₁.put k ad'
  | _ => s = s₁

/-- an operation alone: one read, and at most one put of what it makes of the ad it has read -/
theorem solo_effect {p : Go E (Report E)} (hp : Follows k puts p .start) (s₁ : Store E) (cs : List Choice) :
    ∃ ph, Follows k puts ((updates E).solo p s₁ cs).1 ph ∧ ph.Effect k puts s₁ ((updates E).solo p s₁ cs).2 := by
  induction cs using reverseRecOn with
  | nil => exact ⟨.start, hp, rfl⟩
  | append_singleton cs ch ih =>
    obtain ⟨ph, hf, he⟩ := ih
    rw [Serial.Machine.solo_snoc]
    generalize ((updates E).solo p s₁ cs).1 = p' at hf
    generalize ((updates E).solo p s₁ cs).2 = s at he
    cases p' with
    | ret => exact ⟨ph, hf, he⟩
    | call c =>
      have hall := hf.1
      refine ⟨(updateProtocol k puts).next ph c (s.perform ch c).1, hf.2 _ trivial, ?_⟩
      cases c with
      | get k' =>
        cases ph with
        | start =>
          obtain rfl : k' = k := hall
          obtain rfl : s = s₁ := he
          simp only [updates, updateProtocol, Store.perform]
          cases hg : s.get k' with
          | none => exact rfl
          | some => exact ⟨rfl, hg⟩
        | _ => exact absurd hall id
      | put =>
        cases ph with
        | read =>
          obtain ⟨rfl, hputs⟩ := hall
          obtain ⟨rfl, hg⟩ := he
          simp only [updates, updateProtocol, Store.perform]
          cases ch.ok with
          | true => exact ⟨hg, hputs, rfl⟩
          | false => exact rfl
        | _ => exact absurd hall id
      | clock | teardown | await =>
        cases ph with
        | read => exact he
        | _ => exact absurd hall id
      | _ => cases ph <;> exact absurd hall id

/-! ## The operations -/

/-- the end of an action, as the report it becomes -/
abbrev ActionEnded (ph : Phase E) (r : ℤ × List (ULog E)) : Prop := Ended ph (.acted r.1 r.2)

variable [ClassAdLib E] {ad : Ad E}

theorem holdJob_follows (hook : Bool) (req : ActionRequest) (now : ℤ)
    (hputs : puts ad (Queue.holdAd req (ad.int0 .jobStatus) now ad)) :
    Prog.wp (updateProtocol k puts) ActionEnded (Queue.holdJob hook k req true ad now) (.read ad) := by
  refine wp_ite (fun _ => rfl) fun _ => wp_ite (fun _ => rfl) fun _ =>
    wp_ite (fun h => absurd rfl h) fun _ => wp_bind.2 ?_
  have hput : wp (updateProtocol k puts) ActionEnded
    ((Go.put k (Queue.holdAd req (ad.int0 .jobStatus) now ad)).bind
      fun ok => if ok then .ret (arSuccess, [.held (Queue.holdAd req (ad.int0 .jobStatus) now ad) (Queue.holdReason req)
        (Queue.holdCode req) req.holdReasonSub]) else .ret (arError, [])) (.read ad) := by
    refine ⟨⟨rfl, hputs⟩, fun ok _ => ?_⟩
    cases ok
    · exact rfl
    · exact trivial
  unfold Queue.vacate
  split_ifs
  · exact ⟨trivial, fun _ _ => ⟨trivial, fun _ _ => hput⟩⟩
  · exact hput

theorem releaseJob_follows (req : ActionRequest) (now : ℤ) (hputs : puts ad (Queue.releaseAd req now ad)) :
    Prog.wp (updateProtocol k puts) ActionEnded (Queue.releaseJob k req true ad now) (.read ad) := by
  refine wp_ite (fun _ => rfl) fun _ => wp_ite (fun _ => rfl) fun _ =>
    wp_ite (fun h => absurd rfl h) fun _ => ⟨⟨rfl, hputs⟩, fun ok _ => ?_⟩
  cases ok
  · exact rfl
  · exact trivial

/-- **Every operation reads once, puts at most once, and reports success only after its put.** -/
theorem prog_follows (q : Queue E) (hook : Bool) (k : JobKey) (op : JobOp E) :
    Follows k op.Puts (op.prog q hook k) .start := by
  cases op with
  | modify =>
    refine ⟨rfl, fun r _ => ?_⟩
    cases r with
    | none => exact rfl
    | some =>
      refine ⟨⟨rfl, rfl⟩, fun ok _ => ?_⟩
      cases ok
      · exact rfl
      · exact trivial
  | hold =>
    refine wp_bind.2 ⟨rfl, fun r _ => ?_⟩
    cases r with
    | none => exact rfl
    | some =>
      exact wp_ite (fun _ => rfl) fun _ => ⟨trivial, fun now _ => holdJob_follows hook _ now ⟨now, rfl⟩⟩
  | release =>
    refine wp_bind.2 ⟨rfl, fun r _ => ?_⟩
    cases r with
    | none => exact rfl
    | some =>
      exact wp_ite (fun _ => rfl) fun _ => ⟨trivial, fun now _ => releaseJob_follows _ now ⟨now, rfl⟩⟩

/-! ## Serial orders -/

open Serial

/-- the operations before their first step -/
def launch (q : Queue E) (hook : Bool) (k : JobKey) (ops : List (JobOp E)) :
    State (Fin ops.length) (Go E (Report E)) (Store E) :=
  ⟨fun i => (ops.get i).prog q hook k, q.coll, []⟩

variable {q : Queue E} {hook : Bool} {ops : List (JobOp E)} {a : Attr} {e : E}

omit [ClassAdLib E] in
theorem get_put_self (s : Store E) (k : JobKey) (h : ad a = some e) :
    ∃ ad', (s.put k ad).get k = some ad' ∧ ad' a = some e :=
  ⟨_, Store.get_of_lookup (by rw [Store.lookup_put, if_pos rfl]), by simp [h]⟩

variable {s : Store E}

/-- the turn of an operation that leaves `a` alone -/
theorem turn_leaves {op : JobOp E} (hop : op.Leaves a) (hg : s.get k = some ad)
    (ha : ad a = some e) (cs : List Choice) :
    ∃ ad', ((updates E).solo (op.prog q hook k) s cs).2.get k = some ad' ∧ ad' a = some e := by
  obtain ⟨ph, -, heff⟩ := solo_effect (prog_follows q hook k op) s cs
  generalize ((updates E).solo (op.prog q hook k) s cs).2 = s' at heff
  cases ph with
  | written ad₁ =>
    obtain ⟨hg', hputs, rfl⟩ := heff
    obtain rfl : ad = ad₁ := Option.some.inj (hg.symm.trans hg')
    exact get_put_self s k ((hop _ _ hputs).trans ha)
  | read => exact ⟨ad, heff.1 ▸ hg, ha⟩
  | start | idle => exact ⟨ad, (show s' = s from heff) ▸ hg, ha⟩

/-- the turn of an operation that sets `a` and reports success -/
theorem turn_sets {op : JobOp E} (hop : op.Sets a e) {cs : List Choice} {r : Report E}
    (hr : ((updates E).solo (op.prog q hook k) s cs).1 = .ret r) (hs : r.success = true) :
    ∃ ad', ((updates E).solo (op.prog q hook k) s cs).2.get k = some ad' ∧ ad' a = some e := by
  obtain ⟨ph, hf, heff⟩ := solo_effect (prog_follows q hook k op) s cs
  rw [hr] at hf
  generalize ((updates E).solo (op.prog q hook k) s cs).2 = s' at heff
  cases ph with
  | written =>
    obtain ⟨-, hputs, rfl⟩ := heff
    exact get_put_self s k (hop _ _ hputs)
  | start => exact absurd hf id
  | read | idle => exact absurd (hs.symm.trans hf) (by simp)

variable {cs : Fin ops.length → List Choice} {order : List (Fin ops.length)}

/-- the turns of operations that leave `a` alone -/
theorem serialRun_leaves (q : Queue E) (hook : Bool)
    (hn : order.Nodup) (hleaves : ∀ j ∈ order, (ops.get j).Leaves a) {g : Fin ops.length → Go E (Report E)}
    (hg : ∀ j ∈ order, g j = (ops.get j).prog q hook k) (hs : ∃ ad, s.get k = some ad ∧ ad a = some e) :
    ∃ ad, ((updates E).serialRun cs order (g, s)).2.get k = some ad ∧ ad a = some e := by
  induction order generalizing g s with
  | nil => exact hs
  | cons j order ih =>
    obtain ⟨hj, hn⟩ := nodup_cons.1 hn
    obtain ⟨_, hget, ha⟩ := hs
    refine ih hn (fun i hi => hleaves i (mem_cons_of_mem j hi)) (fun i hi => ?_) ?_
    · have hij : i ≠ j := fun he => hj (he ▸ hi)
      rw [Function.update_of_ne hij]
      exact hg i (mem_cons_of_mem j hi)
    · dsimp only
      rw [hg j mem_cons_self]
      exact turn_leaves (hleaves j mem_cons_self) hget ha (cs j)

/-- an attribute that only the successful operation `i` sets is there after any serial order -/
theorem serialRun_sets (hn : order.Nodup) {i : Fin ops.length} (hi : i ∈ order) {r : Report E}
    (hr : ((updates E).serialRun cs order ((launch q hook k ops).locals, q.coll)).1 i = .ret r) (hs : r.success = true)
    (hsets : (ops.get i).Sets a e) (hleaves : ∀ j, j ≠ i → (ops.get j).Leaves a) :
    ∃ ad, ((updates E).serialRun cs order ((launch q hook k ops).locals, q.coll)).2.get k = some ad ∧
      ad a = some e := by
  obtain ⟨before, after, rfl⟩ := append_of_mem hi
  obtain ⟨-, hn', hdisj⟩ := nodup_append.1 hn
  obtain ⟨hia, hna⟩ := nodup_cons.1 hn'
  have hib : i ∉ before := fun hb => hdisj i hb i mem_cons_self rfl
  -- the operations before `i` leave it at its start; after its turn only those that leave `a` alone come
  have hrun := (updates E).serialRun_append cs before (i :: after) ((launch q hook k ops).locals, q.coll)
  generalize hx : (updates E).serialRun cs before ((launch q hook k ops).locals, q.coll) = x at hrun
  have hstart : ∀ j, j ∉ before → x.1 j = (ops.get j).prog q hook k :=
    fun j hj => hx ▸ Machine.serialRun_of_notMem hj _
  have hturn : (updates E).serialRun cs (i :: after) x = (updates E).serialRun cs after ((updates E).turn cs x i) := rfl
  rw [hrun, hturn] at hr ⊢
  rw [Machine.serialRun_of_notMem hia] at hr
  have hself : ((updates E).turn cs x i).1 i = ((updates E).solo (x.1 i) x.2 (cs i)).1 := Function.update_self ..
  rw [hself, hstart i hib] at hr
  refine serialRun_leaves q hook (g := ((updates E).turn cs x i).1) hna (fun j hj => ?_) (fun j hj => ?_) ?_
  · exact hleaves j fun he => hia (he ▸ hj)
  · have hji : j ≠ i := fun he => hia (he ▸ hj)
    have hjb : j ∉ before := fun hb => hdisj j hb j (mem_cons_of_mem i hj) rfl
    exact (Function.update_of_ne hji _ _).trans (hstart j hjb)
  · have hset := turn_sets hsets hr hs
    rwa [← hstart i hib] at hset

/-- **Updates that are not overtaken are not lost.** -/
theorem updates_serializable (q : Queue E) (hook : Bool) (k : JobKey) (ops : List (JobOp E))
    (sched : List (Fin ops.length × Choice))
    (hcur : Runs.Meets (updates E).next (updates E).Current (launch q hook k ops) sched) :
    (∃ order : List (Fin ops.length), order.Perm (List.finRange ops.length) ∧
      ((sched.foldl (updates E).next (launch q hook k ops)).locals,
          (sched.foldl (updates E).next (launch q hook k ops)).shared) =
        (updates E).serialRun (choices sched) order ((launch q hook k ops).locals, q.coll)) ∧
      ∀ i a e, succeeded ((sched.foldl (updates E).next (launch q hook k ops)).locals i) = true →
        (ops.get i).Sets a e → (∀ j, j ≠ i → (ops.get j).Leaves a) →
        ∃ ad, (sched.foldl (updates E).next (launch q hook k ops)).shared.get k = some ad ∧ ad a = some e := by
  have hfresh : ∀ i, Unbegun ((launch q hook k ops).locals i) := fun i => ⟨k, _, prog_follows q hook k (ops.get i)⟩
  obtain ⟨order, hperm, heq⟩ := serializable (updates_spec E) hfresh q.coll
    (nodup_finRange _) (fun i => mem_finRange i) sched hcur
  refine ⟨⟨order, hperm, heq⟩, fun i a e hi hsets hleaves => ?_⟩
  obtain ⟨r, hr, hs⟩ := succeeded_iff.1 hi
  obtain ⟨hlocals, hshared⟩ := Prod.mk.inj heq
  rw [show (launch q hook k ops) = ⟨(launch q hook k ops).locals, q.coll, []⟩ from rfl, hshared]
  refine serialRun_sets (hperm.nodup_iff.2 (nodup_finRange _)) (hperm.mem_iff.2 (mem_finRange i)) ?_ hs hsets
    hleaves (r := r)
  rw [← hr]
  exact (congrFun hlocals i).symm

theorem hold_sets (req : ActionRequest) : (JobOp.hold req : JobOp E).Sets .jobStatus (lit (.int statusHeld)) := by
  rintro ad ad' ⟨now, rfl⟩
  exact Queue.holdAd_jobStatus _ _ now ad

theorem modify_leaves {a b : Attr} (i : ℤ) (h : b ≠ a) : (JobOp.modify fun ad : Ad E => ad.setInt a i).Leaves b := by
  rintro ad ad' rfl
  exact if_neg h

end

/-! ## A spool transfer and a hold -/

/-- `finishSpool` records the end of a transfer while the owner holds the job -/
def spoolAndHold : List (JobOp Value) := [.modify fun ad => ad.setInt .stageInFinish 299, .hold (aliceRequest .hold)]

/-- the steps of the transfer and of the hold, in the order given -/
def interleave (order : List Bool) : List (Fin spoolAndHold.length × Choice) :=
  order.map fun hold => (if hold then ⟨1, by decide⟩ else ⟨0, by decide⟩, smooth)

theorem spool_before_hold :
    (∃ order : List (Fin spoolAndHold.length), order.Perm (List.finRange spoolAndHold.length) ∧
      (((interleave [false, false, true, true, true]).foldl (updates Value).next
            (launch aliceQueue true ⟨1, 0⟩ spoolAndHold)).locals,
          ((interleave [false, false, true, true, true]).foldl (updates Value).next
            (launch aliceQueue true ⟨1, 0⟩ spoolAndHold)).shared) =
        (updates Value).serialRun (Serial.choices (interleave [false, false, true, true, true])) order
          ((launch aliceQueue true ⟨1, 0⟩ spoolAndHold).locals, aliceQueue.coll)) ∧
      ∃ ad, ((interleave [false, false, true, true, true]).foldl (updates Value).next
        (launch aliceQueue true ⟨1, 0⟩ spoolAndHold)).shared.get ⟨1, 0⟩ = some ad ∧ ad .jobStatus = some (.int 5) := by
  have h := updates_serializable aliceQueue true ⟨1, 0⟩ spoolAndHold (interleave [false, false, true, true, true])
    (by decide +kernel)
  refine ⟨h.1, h.2 ⟨1, by decide⟩ .jobStatus (.int 5) (by decide +kernel) (hold_sets (aliceRequest .hold))
    fun j hj => ?_⟩
  have hall : ∀ j : Fin 2, j ≠ 1 → j = 0 := by decide
  obtain rfl : j = ⟨0, by decide⟩ := hall j hj
  exact modify_leaves 299 (by decide)

/-- **A hold is lost.** The transfer reads the job, the hold reads and writes it and reports success, and the transfer
writes its copy back: the job is Idle, as after no serial order. -/
theorem modify_loses_hold :
    (∀ i, succeeded (((interleave [false, true, true, true, false]).foldl (updates Value).next
        (launch aliceQueue true ⟨1, 0⟩ spoolAndHold)).locals i) = true) ∧
      (((interleave [false, true, true, true, false]).foldl (updates Value).next
        (launch aliceQueue true ⟨1, 0⟩ spoolAndHold)).shared.get ⟨1, 0⟩).map
          (fun ad => (ad.int0 .jobStatus, ad.int0 .stageInFinish)) = some (statusIdle, 299) ∧
      ∀ order : List (Fin spoolAndHold.length), order.Perm (List.finRange spoolAndHold.length) →
        (((updates Value).serialRun (Serial.choices (interleave [false, true, true, true, false])) order
          ((launch aliceQueue true ⟨1, 0⟩ spoolAndHold).locals, aliceQueue.coll)).2.get ⟨1, 0⟩).map
            (fun ad => (ad.int0 .jobStatus, ad.int0 .stageInFinish)) = some (statusHeld, 299) := by
  have hserial : ∀ order ∈ (finRange spoolAndHold.length).permutations',
      (((updates Value).serialRun (Serial.choices (interleave [false, true, true, true, false])) order
        ((launch aliceQueue true ⟨1, 0⟩ spoolAndHold).locals, aliceQueue.coll)).2.get ⟨1, 0⟩).map
          (fun ad => (ad.int0 .jobStatus, ad.int0 .stageInFinish)) = some (statusHeld, 299) := by decide +kernel
  exact ⟨by decide +kernel, by decide +kernel, fun order horder => hserial order (mem_permutations'.2 horder)⟩

end AccessPoint
