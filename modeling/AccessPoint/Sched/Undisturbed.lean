/-
A handler of the core by itself.

Between two commands of a handler other goroutines may act; here they do not, and every write is done. What the program
of the handler then guarantees is a statement about the queue and the event channel (`Prog.Ends coreExec`), and the
steps of the core alone carry it to the end of the handler.

- `coreExec`: one command of the core.
- `run_finishes`: the handler comes to its end with what its program guarantees; `Handles` is the whole of it, from the
  event on.
- `run_exists`: it does come to its end, unless it waits.
-/
import AccessPoint.Core.Prog
import AccessPoint.Sched.World

namespace AccessPoint

open ClassAdLib

variable {E : Type}

namespace World

/-- what the commands of the core work on: the queue and the event channel -/
def board (w : World E) : Queue E × List Event := (w.q, w.events)

/-- one command of the core; its writes succeed -/
def coreExec (m : Queue E × List Event) (c : Cmd E) (r : c.Resp) (m' : Queue E × List Event) : Prop :=
  ∃ (ch : Choice) (w w' : World E), ch.ok = true ∧ w.board = m ∧ w.exec 0 ch c = some (r, w') ∧ w'.board = m'

variable {m m' : Queue E × List Event} {k : JobKey}

theorem coreExec_get {r : Option (Ad E)} (h : coreExec m (.get k) r m') : r = m.1.coll.get k ∧ m' = m := by
  obtain ⟨_, _, _, -, rfl, hx, rfl⟩ := h
  cases hx
  exact ⟨rfl, rfl⟩

theorem coreExec_put {ad : Ad E} {r : Bool} (h : coreExec m (.put k ad) r m') :
    r = true ∧ m' = ({ m.1 with coll := m.1.coll.put k ad }, m.2) := by
  obtain ⟨_, _, _, hok, rfl, hx, rfl⟩ := h
  simp only [exec, if_pos hok] at hx
  cases hx
  exact ⟨rfl, rfl⟩

variable {r : Unit}

theorem coreExec_append {ad : Ad E} (h : coreExec m (.append k ad) r m') :
    m' = ({ m.1 with hist := m.1.hist ++ [ad] }, m.2) := by
  obtain ⟨_, _, _, hok, rfl, hx, rfl⟩ := h
  simp only [exec, if_pos hok] at hx
  cases hx
  rfl

theorem coreExec_delete (h : coreExec m (.delete k) r m') : m' = ({ m.1 with coll := m.1.coll.delete k }, m.2) := by
  obtain ⟨_, _, _, -, rfl, hx, rfl⟩ := h
  cases hx
  rfl

theorem coreExec_flush (h : coreExec m .flush r m') : m' = m := by
  obtain ⟨_, _, _, -, rfl, hx, rfl⟩ := h
  cases hx
  rfl

theorem coreExec_scan {r : List (Ad E)} (h : coreExec m .scan r m') : r = m.1.coll.scan ∧ m' = m := by
  obtain ⟨_, _, _, -, rfl, hx, rfl⟩ := h
  cases hx
  exact ⟨rfl, rfl⟩

theorem coreExec_clock {r : ℤ} (h : coreExec m .clock r m') : m' = m := by
  obtain ⟨_, _, _, -, rfl, hx, rfl⟩ := h
  cases hx
  rfl

theorem coreExec_submit {ev : Event} (h : coreExec m (.submit ev) r m') (hroom : m.2.length < eventCap) :
    m' = (m.1, m.2 ++ [ev]) := by
  obtain ⟨_, w, _, -, rfl, hx, rfl⟩ := h
  cases hx
  exact Prod.ext (submit_frame w ev).2.2.2.2 (submit_fits hroom)

variable (cfg : SchedConfig E) {w : World E}

/-- the core at rest stays so -/
theorem run_core_idle [ClassAdLib E] (chs : List Choice) (hb : w.busy = none) : run cfg w (chs.map .core) = w := by
  induction chs with
  | nil => rfl
  | cons ch chs ih =>
    have hstep : step cfg w (.core ch) = w := by simp [step, hb]
    simpa [run, hstep] using ih

variable [ClassAdLib E]

/-- what the commands of a handler leave alone -/
structure Unmoved (w w' : World E) : Prop where
  core : w'.core = w.core
  threads : w'.threads = w.threads
  nextTid : w'.nextTid = w.nextTid

variable {Q : Queue E × List Event → Finish E → Prop} {p : Go E (Finish E)}

/-- **A handler by itself.** The steps of the core take it to its end, with what its program guarantees. -/
theorem run_finishes {chs : List Choice} (hok : ∀ ch ∈ chs, ch.ok = true) (h : Prog.Ends coreExec Q p w.board)
    (hidle : (run cfg (w.resume cfg p) (chs.map .core)).busy = none) :
    ∃ fin w₁, Q w₁.board fin ∧ run cfg (w.resume cfg p) (chs.map .core) = w₁.finish cfg fin ∧ Unmoved w w₁ := by
  induction chs generalizing w p with
  | nil =>
    cases p with
    | ret fin => exact ⟨fin, w, h, rfl, rfl, rfl, rfl⟩
    | call => cases hidle
  | cons ch chs ih =>
    have hrest : ∀ ch ∈ chs, ch.ok = true := fun ch' hin => hok ch' (List.mem_cons_of_mem ch hin)
    cases p with
    | ret fin => exact ⟨fin, w, h, run_core_idle cfg (ch :: chs) (finish_frame cfg w fin).2.1, rfl, rfl, rfl⟩
    | call c f =>
      let w₀ : World E := { w with busy := some (.call c f) }
      cases hx : w₀.exec 0 ch c with
      | none =>
        have hstep : step cfg w₀ (.core ch) = w₀ := by
          simp only [step, w₀] at hx ⊢
          rw [hx]
        have hrun : run cfg (w.resume cfg (.call c f)) ((ch :: chs).map .core) =
            run cfg (w.resume cfg (.call c f)) (chs.map .core) := by
          simp only [run, List.map_cons, List.foldl_cons]
          exact congrArg (fun v => (chs.map Step.core).foldl (step cfg) v) hstep
        rw [hrun] at hidle ⊢
        exact ih hrest h hidle
      | some rw₁ =>
        obtain ⟨r, w₁⟩ := rw₁
        have hstep : step cfg w₀ (.core ch) = w₁.resume cfg (f r) := by
          simp only [step, w₀] at hx ⊢
          rw [hx]
        have hrun : run cfg (w.resume cfg (.call c f)) ((ch :: chs).map .core) =
            run cfg (w₁.resume cfg (f r)) (chs.map .core) := by
          simp only [run, List.map_cons, List.foldl_cons]
          exact congrArg (fun v => (chs.map Step.core).foldl (step cfg) v) hstep
        rw [hrun] at hidle ⊢
        obtain ⟨fin, w₂, hq, hend, hunmoved⟩ :=
          ih hrest (h r w₁.board ⟨ch, w₀, w₁, hok ch List.mem_cons_self, rfl, hx, rfl⟩) hidle
        obtain ⟨hcore, hthreads, htid, -, -⟩ := exec_frame hx
        exact ⟨fin, w₂, hq, hend, hunmoved.core.trans hcore, hunmoved.threads.trans hthreads,
          hunmoved.nextTid.trans htid⟩

/-- the end of a handler as far as the queue and the channel go -/
theorem run_ends {chs : List Choice} (hok : ∀ ch ∈ chs, ch.ok = true) (h : Prog.Ends coreExec Q p w.board)
    (hidle : (run cfg (w.resume cfg p) (chs.map .core)).busy = none) :
    ∃ fin, Q (run cfg (w.resume cfg p) (chs.map .core)).board fin := by
  obtain ⟨fin, w₁, hq, hend, -⟩ := run_finishes cfg hok h hidle
  obtain ⟨hqueue, -, -, -, hev⟩ := finish_frame cfg w₁ fin
  have hboard : (w₁.finish cfg fin).board = w₁.board := Prod.ext hqueue hev
  exact ⟨fin, by rw [hend, hboard]; exact hq⟩

/-- a handler that does not wait comes to its end -/
theorem run_exists (ch : Choice) (h : Prog.Calls (· ≠ .await) p) (w : World E) :
    ∃ n, (run cfg (w.resume cfg p) ((List.replicate n ch).map .core)).busy = none := by
  induction p generalizing w with
  | ret fin => exact ⟨0, (finish_frame cfg w fin).2.1⟩
  | call c f ih =>
    let w₀ : World E := { w with busy := some (.call c f) }
    have hx : ∃ r w₁, w₀.exec 0 ch c = some (r, w₁) := by
      cases c with
      | await => exact absurd rfl h.1
      | put | append =>
        simp only [exec]
        split_ifs <;> exact ⟨_, _, rfl⟩
      | _ => exact ⟨_, _, rfl⟩
    obtain ⟨r, w₁, hx⟩ := hx
    obtain ⟨n, hn⟩ := ih r (h.2 r) w₁
    refine ⟨n + 1, ?_⟩
    have hstep : step cfg w₀ (.core ch) = w₁.resume cfg (f r) := by
      simp only [step, w₀] at hx ⊢
      rw [hx]
    simp only [run, List.replicate_succ, List.map_cons, List.foldl_cons] at hn ⊢
    rw [show step cfg (w.resume cfg (.call c f)) (.core ch) = w₁.resume cfg (f r) from hstep]
    exact hn

/-- the core takes the next event and works on it undisturbed to its end, every write done -/
def Handles (cfg : SchedConfig E) (w w' : World E) : Prop :=
  ∃ chs : List Choice, (∀ ch ∈ chs, ch.ok = true) ∧ w' = run cfg w (.take :: chs.map .core) ∧ w'.busy = none

theorem take_eq {ev : Event} {rest : List Event} (hb : w.busy = none) (he : w.events = ev :: rest) :
    step cfg w .take = (took cfg w ev rest).resume cfg (Sched.handle cfg w.core ev).2 := by
  simp [World.step, hb, he, took]

end World

/-! ## Pieces of handlers -/

namespace Sched

open World Prog

variable {m : Queue E × List Event} {k : JobKey} {ad : Ad E}

theorem modify_ends {Q : Queue E × List Event → Bool → Prop} {fn : Ad E → Ad E} (hget : m.1.coll.get k = some ad)
    (h : Q ({ m.1 with coll := m.1.coll.put k (fn ad) }, m.2) true) : Ends coreExec Q (Queue.modify k fn) m := by
  intro r m' hx
  obtain ⟨rfl, rfl⟩ := coreExec_get hx
  rw [hget]
  intro r m'' hx'
  obtain ⟨rfl, rfl⟩ := coreExec_put hx'
  exact h

theorem logJob_ends (cfg : SchedConfig E) {Q : Queue E × List Event → List (ULog E) → Prop} (f : Ad E → ULog E)
    (h : ∀ l, Q m l) : Ends coreExec Q (logJob cfg k f) m := by
  unfold logJob
  split_ifs
  · intro r m' hx
    obtain ⟨rfl, rfl⟩ := coreExec_get hx
    cases m'.1.coll.get k <;> exact h _
  · exact h []

variable {Q : Queue E × List Event → ℤ → Prop}

theorem clock_ends (h : ∀ now, Q m now) : Ends coreExec Q Go.clock m := by
  intro now m' hx
  obtain rfl := coreExec_clock hx
  exact h now

theorem jobStatus_ends [ClassAdLib E] (hget : m.1.coll.get k = some ad)
    (h : Q m (ad.int0 .jobStatus)) : Ends coreExec Q (Queue.jobStatus k) m := by
  intro r m' hx
  obtain ⟨rfl, rfl⟩ := coreExec_get hx
  rw [hget]
  exact h

end Sched

end AccessPoint
