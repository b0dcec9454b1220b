/-
Runs of a deterministic machine: `ops.foldl step s`. One induction rule for each kind of invariant a run lemma needs:
one that every operation preserves, one that only operations under a condition on the state preserve, and, of either
kind, one that speaks of the operations already performed; and one for two runs, the second without the operations of
others.
-/
import Mathlib.Tactic

namespace AccessPoint.Runs

variable {σ ο : Type} {step : σ → ο → σ} {s : σ}

/-- an invariant of every step holds after every run -/
theorem foldl_inv {P : σ → Prop} (hstep : ∀ s o, P s → P (step s o)) (hs : P s) (ops : List ο) :
    P (ops.foldl step s) := by
  induction ops generalizing s with
  | nil => exact hs
  | cons o ops ih => exact ih (hstep s o hs)

/-- every operation of the run meets the condition `A` in the state in which it is performed -/
def Meets (step : σ → ο → σ) (A : σ → ο → Prop) : σ → List ο → Prop
  | _, [] => True
  | s, o :: ops => A s o ∧ Meets step A (step s o) ops

instance decidableMeets {A : σ → ο → Prop} [∀ s o, Decidable (A s o)] : ∀ s ops, Decidable (Meets step A s ops)
  | _, [] => .isTrue trivial
  | s, o :: ops =>
    have := decidableMeets (A := A) (step s o) ops
    inferInstanceAs (Decidable (A s o ∧ Meets step A (step s o) ops))

variable {A : σ → ο → Prop}

theorem meets_append {pre post : List ο} :
    Meets step A s (pre ++ post) ↔ Meets step A s pre ∧ Meets step A (pre.foldl step s) post := by
  induction pre generalizing s with
  | nil => simp [Meets]
  | cons o pre ih => simp [Meets, ih, and_assoc]

/-- operations of one kind -/
theorem meets_map {ο' : Type} (g : ο' → ο) {ops : List ο'} :
    Meets step A s (ops.map g) ↔ Meets (fun s o => step s (g o)) (fun s o => A s (g o)) s ops := by
  induction ops generalizing s with
  | nil => exact Iff.rfl
  | cons o ops ih => exact and_congr Iff.rfl ih

/-- an invariant of the steps that meet `A` holds after every run that meets `A` -/
theorem foldl_inv_of {P : σ → Prop} (hstep : ∀ s o, A s o → P s → P (step s o)) (hs : P s)
    {ops : List ο} (hops : Meets step A s ops) : P (ops.foldl step s) := by
  induction ops generalizing s with
  | nil => exact hs
  | cons o ops ih => exact ih (hstep s o hops.1 hs) hops.2

variable {P : List ο → σ → Prop}

/-- a property of the operations performed so far and the state they lead to -/
theorem foldl_history (hs : P [] s)
    (hstep : ∀ done s o, P done s → P (done ++ [o]) (step s o)) (ops : List ο) : P ops (ops.foldl step s) := by
  induction ops using List.reverseRecOn with
  | nil => exact hs
  | append_singleton ops o ih =>
    rw [List.foldl_append]
    exact hstep ops _ o ih

/-- the same for a run that meets `A` -/
theorem foldl_history_of (hs : P [] s)
    (hstep : ∀ done s o, A s o → P done s → P (done ++ [o]) (step s o)) {ops : List ο} (hops : Meets step A s ops) :
    P ops (ops.foldl step s) := by
  have hfrom : ∀ (ops done : List ο) (s : σ), Meets step A s ops → P done s → P (done ++ ops) (ops.foldl step s) := by
    intro ops
    induction ops with
    | nil => exact fun done s _ h => by simpa using h
    | cons o ops ih =>
      intro done s hm h
      have hrest := ih (done ++ [o]) (step s o) hm.2 (hstep done s o hm.1 h)
      rwa [List.append_assoc] at hrest
  exact hfrom ops [] s hops hs

/-- a run and the run of the operations `mine` alone, when the others change nothing that `R` looks at -/
theorem foldl_purge {R : σ → σ → Prop} (mine : ο → Bool)
    (hmine : ∀ s s' o, mine o = true → R s s' → R (step s o) (step s' o))
    (hother : ∀ s s' o, mine o = false → R s s' → R (step s o) s') {s s' : σ} (h : R s s') (ops : List ο) :
    R (ops.foldl step s) ((ops.filter mine).foldl step s') := by
  induction ops generalizing s s' with
  | nil => exact h
  | cons o ops ih =>
    rw [List.filter_cons]
    cases hm : mine o with
    | true => exact ih (hmine s s' o hm h)
    | false => exact ih (hother s s' o hm h)

end AccessPoint.Runs
