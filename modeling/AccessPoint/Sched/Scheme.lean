/-
Invariants of the schedd that rest on what each of its goroutines does.

A `Scheme` is a protocol that every program of the schedd keeps to: the actions of tools and of the policy, the handlers
of the core, the sweep, and the runs they start, each from the state in which it begins. A `View` says what the state a
goroutine has reached means for the queue. `Follows.step` carries the two through one step of the schedd, whatever the
step is; what is left to show is what one command does to the queue (`Upholds`).
-/
import AccessPoint.Sched.Outstanding

namespace AccessPoint

variable {E : Type} [ClassAdLib E] {cfg : SchedConfig E} {S : Type}

/-- what the environment decides about a step -/
def World.Step.choice : World.Step → Option Choice
  | .core ch => some ch
  | .thread _ ch => some ch
  | _ => none

/-- a protocol of the schedd, with the proof that its programs keep to it -/
structure Scheme (cfg : SchedConfig E) (S : Type) where
  protocol : Prog.Protocol (Cmd.Resp (E := E)) S
  /-- where a goroutine other than the core begins -/
  guest : S
  /-- where the core begins with an event, or with a sweep -/
  enter : Option Event → S
  /-- the events that can be in the channel -/
  event : Event → Prop
  tool : ∀ (q : Queue E) k req, Prog.wp protocol (fun _ _ => True) (q.applyAction cfg.hook k req) guest
  policy : ∀ (q : Queue E) k req, Prog.wp protocol (fun _ _ => True) (World.applyPolicy cfg q k req) guest
  handle : ∀ core ev, event ev → Prog.wp protocol
    (fun _ fin => ∀ r ∈ fin.runs, Prog.wp protocol (fun _ _ => True) r.prog guest) (Sched.handle cfg core ev).2
    (enter (some ev))
  sweep : ∀ core, Prog.wp protocol
    (fun _ fin => ∀ r ∈ fin.runs, Prog.wp protocol (fun _ _ => True) r.prog guest) (Sched.sweepExpired cfg core).2
    (enter none)
  /-- the events that come from outside -/
  call : ∀ (w : World E) s ev, w.callEvent s = some ev → event ev
  submits : ∀ st c t ev, protocol.allowed st c → World.eventOf t c = some ev → event ev

/-- what the protocol states of the goroutines say about the queue -/
structure View (E S : Type) where
  shared : Queue E → Prop
  /-- of the core, while it handles an event or sweeps -/
  core : Queue E → Option Event → S → Prop
  /-- of any other goroutine -/
  other : Queue E → S → Prop

namespace Scheme

variable (sc : Scheme cfg S)

/-- a goroutine other than the core keeps to the protocol from `st` on -/
abbrev Goes (p : Go E (ℤ × List (ULog E))) (st : S) : Prop := Prog.wp sc.protocol (fun _ _ => True) p st

/-- the core keeps to the protocol from `st` on, and so do the runs it will start -/
abbrev Handles (p : Go E (Finish E)) (st : S) : Prop :=
  Prog.wp sc.protocol (fun _ fin => ∀ r ∈ fin.runs, sc.Goes r.prog sc.guest) p st

/-- the states in which goroutines begin say nothing that the queue does not already satisfy -/
structure Fresh (v : View E S) : Prop where
  guest : ∀ q, v.shared q → v.other q sc.guest
  enter : ∀ q ev, v.shared q → v.core q ev (sc.enter ev)

end Scheme

namespace World

variable {sc : Scheme cfg S} {v v' : View E S} {w w' : World E}

/-- the world but for the core -/
structure Around (sc : Scheme cfg S) (v : View E S) (w : World E) : Prop where
  shared : v.shared w.q
  events : ∀ ev ∈ w.events, sc.event ev
  threads : ∀ i th, w.threads.lookup i = some th → ∃ st, v.other w.q st ∧ sc.Goes th.prog st

/-- every goroutine keeps to the protocol, from a state that is true of the queue -/
structure Follows (sc : Scheme cfg S) (v : View E S) (w : World E) : Prop extends Around sc v w where
  busy : ∀ p, w.busy = some p → ∃ st, v.core w.q w.handling st ∧ sc.Handles p st
  resting : w.busy = none → w.handling = none

/-- what one step has to be shown to keep: `v` is the view before it, `v'` the view after it -/
structure Upholds (sc : Scheme cfg S) (v v' : View E S) (w : World E) (s : Step) : Prop where
  shared : v'.shared w.q
  quietCore : ∀ st, v.core w.q w.handling st → v'.core w.q w.handling st
  quietOther : ∀ st, v.other w.q st → v'.other w.q st
  core : ∀ ch c r w₁, s = .core ch → w.command s = some (0, c) → w.exec 0 ch c = some (r, w₁) →
    ∀ st, v.core w.q w.handling st → sc.protocol.allowed st c →
      sc.protocol.expects st c r ∧ v'.shared w₁.q ∧ v'.core w₁.q w.handling (sc.protocol.next st c r) ∧
        ∀ st', v.other w.q st' → v'.other w₁.q st'
  thread : ∀ i ch c r w₁, s = .thread i ch → w.command s = some (i, c) → w.exec i ch c = some (r, w₁) →
    ∀ st, v.other w.q st → sc.protocol.allowed st c →
      sc.protocol.expects st c r ∧ v'.shared w₁.q ∧ v'.other w₁.q (sc.protocol.next st c r) ∧
        (∀ st', v.other w.q st' → v'.other w₁.q st') ∧
        ∀ st', v.core w.q w.handling st' → v'.core w₁.q w.handling st'

theorem start_follows {q : Queue E} (hq : v.shared q) : Follows sc v (start q) where
  shared := hq
  events := fun _ h => nomatch h
  threads := fun _ _ h => nomatch h
  busy := fun _ h => nomatch h
  resting := fun _ => rfl

/-! ## The parts of a step -/

theorem Around.frame (h : Around sc v w) (hq : w'.q = w.q) (hev : ∀ ev ∈ w'.events, sc.event ev)
    (hth : w'.threads = w.threads) : Around sc v w' where
  shared := hq ▸ h.shared
  events := hev
  threads := by rw [hq, hth]; exact h.threads

theorem Around.spawn (h : Around sc v w) (hfresh : sc.Fresh v) {th : Thread E} (hth : sc.Goes th.prog sc.guest) :
    Around sc v (w.spawn th) where
  shared := h.shared
  events := h.events
  threads := by
    intro i th' hl
    simp only [World.spawn, KeyMap.lookup_insert_ite] at hl
    split_ifs at hl with hi
    · obtain rfl := Option.some.inj hl
      exact ⟨sc.guest, hfresh.guest _ h.shared, hth⟩
    · exact h.threads i th' hl

theorem Around.submit (h : Around sc v w) {ev : Event} (hev : sc.event ev) :
    ∀ ev' ∈ (w.submit ev).events, sc.event ev' := by
  intro ev' hin
  rcases (submit_adds w ev).mem hin with hin | rfl
  · exact h.events ev' hin
  · exact hev

theorem Around.finish (h : Around sc v w) (hfresh : sc.Fresh v) {fin : Finish E}
    (hfin : ∀ r ∈ fin.runs, sc.Goes r.prog sc.guest) : Follows sc v (w.finish cfg fin) := by
  let I : World E → Prop := fun w' => Around sc v w' ∧ w'.busy = none
  have hend : Around sc v (w.finish cfg fin) ∧ (w.finish cfg fin).busy = none := by
    refine finish_inv (I := I) (J := I) cfg ⟨h.frame rfl h.events rfl, rfl⟩ ?_ ?_ fun w' hw' => ?_
    · rintro w' r hr ⟨haround, hbusy⟩
      have hadd : Around sc v { w' with core := w'.core.add r.key r.info } := haround.frame rfl haround.events rfl
      exact ⟨hadd.spawn hfresh (hfin r hr), hbusy⟩
    · rintro w' k req - ⟨haround, hbusy⟩
      have hadd : Around sc v { w' with core := { w'.core with policyPending := k :: w'.core.policyPending } } :=
        haround.frame rfl haround.events rfl
      exact ⟨hadd.spawn hfresh (sc.policy w'.q k req), hbusy⟩
    · exact ⟨hw'.1.frame rfl hw'.1.events rfl, hw'.2⟩
  refine ⟨hend.1, fun p hp => ?_, fun _ => (finish_hand cfg w fin ⟨0, 0⟩).1⟩
  rw [hend.2] at hp
  cases hp

/-- the core goes on with `p` -/
theorem Around.resume (h : Around sc v w) (hfresh : sc.Fresh v) {p : Go E (Finish E)} {st : S}
    (hst : v.core w.q w.handling st) (hp : sc.Handles p st) : Follows sc v (w.resume cfg p) := by
  cases p with
  | ret => exact h.finish hfresh hp
  | call =>
    refine ⟨h.frame rfl h.events rfl, fun p hp' => ?_, fun hb => nomatch hb⟩
    cases hp'
    exact ⟨st, hst, hp⟩

/-- after a command, before the goroutine that performed it goes on -/
theorem Around.exec (h : Around sc v w) {t : ℕ} {ch : Choice} {c : Cmd E} {r : c.Resp} {w₁ : World E}
    (hx : w.exec t ch c = some (r, w₁)) {st : S} (hall : sc.protocol.allowed st c) (hshared : v'.shared w₁.q)
    (hother : ∀ st', v.other w.q st' → v'.other w₁.q st') : Around sc v' w₁ where
  shared := hshared
  events := by
    intro ev hin
    rcases (exec_adds hx).mem hin with hin | hin
    · exact h.events ev hin
    · exact sc.submits st c t ev hall hin
  threads := by
    intro i th hl
    rw [(exec_frame hx).2.1] at hl
    obtain ⟨st', hst', hgoes⟩ := h.threads i th hl
    exact ⟨st', hother st' hst', hgoes⟩

/-- **One step.** Whatever it is, only a command has to be looked at. -/
theorem Follows.step (h : Follows sc v w) (hfresh : sc.Fresh v') {s : Step} (hc : Upholds sc v v' w s) :
    Follows sc v' (step cfg w s) := by
  have haround : Around sc v' w :=
    ⟨hc.shared, h.events, fun i th hl => (h.threads i th hl).imp fun st hst => ⟨hc.quietOther st hst.1, hst.2⟩⟩
  have hbusy : ∀ p, w.busy = some p → ∃ st, v'.core w.q w.handling st ∧ sc.Handles p st := fun p hp =>
    (h.busy p hp).imp fun st hst => ⟨hc.quietCore st hst.1, hst.2⟩
  have hmove := step_move cfg w s
  generalize World.step cfg w s = w' at hmove
  cases hmove with
  | idle => exact ⟨haround, hbusy, h.resting⟩
  | tool k req => exact ⟨haround.spawn hfresh (sc.tool w.q k req), hbusy, h.resting⟩
  | call _ ev n os hev hn hch hos =>
    obtain ⟨-, hth, hb, -, hq⟩ := submit_frame w ev
    have hhand : (w.trace ++ os).foldl Obs.hand none = w.handling := by
      rcases hos with rfl | ⟨m, -, rfl⟩ <;> simp [handling, Obs.hand]
    refine ⟨haround.frame hq (haround.submit (sc.call w s ev hev)) hth, fun p hp => ?_, fun hp => ?_⟩
    · change ∃ st, v'.core (w.submit ev).q ((w.trace ++ os).foldl Obs.hand none) st ∧ _
      rw [hq, hhand]
      exact hbusy p (hb ▸ hp)
    · exact hhand.trans (h.resting (hb ▸ hp))
  | take ev rest hb he =>
    have hev : sc.event ev := h.events ev (he ▸ List.mem_cons_self)
    have hhand : (World.took cfg w ev rest).handling = some ev := handling_observe _ _
    have htook : Around sc v' (World.took cfg w ev rest) :=
      haround.frame rfl (fun ev' hin => h.events ev' (he ▸ List.mem_cons_of_mem _ hin)) rfl
    exact htook.resume hfresh (hhand ▸ hfresh.enter w.q (some ev) hc.shared) (sc.handle w.core ev hev)
  | sweep hb =>
    have hswept : Around sc v' { w with core := (Sched.sweepExpired cfg w.core).1 } := haround.frame rfl h.events rfl
    refine hswept.resume hfresh ?_ (sc.sweep w.core)
    change v'.core w.q w.handling (sc.enter none)
    rw [h.resting hb]
    exact hfresh.enter w.q none hc.shared
  | core ch c f r w₁ hb hx =>
    obtain ⟨st, hst, hhandles⟩ := h.busy _ hb
    obtain ⟨hexp, hshared, hmine, hother⟩ := hc.core ch c r w₁ rfl (by simp [command, hb]) hx st hst hhandles.1
    refine (h.toAround.exec hx hhandles.1 hshared hother).resume hfresh ?_ (hhandles.2 r hexp)
    rw [(exec_hand (k := ⟨0, 0⟩) hx).1]
    exact hmine
  | thread i ch job role c f r w₁ ht hx =>
    obtain ⟨st, hst, hgoes⟩ := h.threads i _ ht
    obtain ⟨hexp, hshared, hself, hother, hmine⟩ := hc.thread i ch c r w₁ rfl (by simp [command, ht]) hx st hst hgoes.1
    have haround₁ := h.toAround.exec hx hgoes.1 hshared hother
    have hframe := thread_frame hx ⟨0, 0⟩ ⟨job, role, .call c f⟩ (f r)
    refine ⟨⟨?_, ?_, fun j th hl => ?_⟩, fun p hp => ?_, fun hp => ?_⟩
    · rw [hframe.q]; exact hshared
    · rw [hframe.events]; exact haround₁.events
    · rw [hframe.q]
      rcases thread_threads hx _ _ hl with ⟨-, hold⟩ | ⟨-, rfl⟩
      · obtain ⟨st', hst', hgoes'⟩ := h.threads j th hold
        exact ⟨st', hother st' hst', hgoes'⟩
      · exact ⟨_, hself, hgoes.2 r hexp⟩
    · obtain ⟨st', hst', hhandles⟩ := h.busy p (hframe.busy ▸ hp)
      rw [hframe.q, hframe.handling]
      exact ⟨st', hmine st' hst', hhandles⟩
    · rw [hframe.handling]
      exact h.resting (hframe.busy ▸ hp)

end World

end AccessPoint
