/-
Programs that talk to shared state.

A `Prog R α` performs commands one at a time; the response to command `c` has type `R c`. A concurrent system
interleaves the commands of several programs, so what one program may do next is read off its tree. A `Protocol` is an
automaton over commands: `wp P Q p s` says that from automaton state `s` every command of `p` is allowed, as long as the
responses are the expected ones, and that the program ends in a state and with a value that satisfy `Q`.

- `wp_bind`, `wp_mono`, `wp_call`, `wp_ite`: the rules.
- `results_bind`: the same for statements about the returned value alone; `calls_bind`: about the commands alone.
- `ends_bind`: a program that runs on a machine undisturbed.
-/
import Mathlib.Tactic

namespace AccessPoint

/-- a program over commands `C` that returns an `α` -/
inductive Prog {C : Type} (R : C → Type) (α : Type) : Type where
  | ret (a : α) : Prog R α
  | call (c : C) (k : R c → Prog R α) : Prog R α

namespace Prog

variable {C : Type} {R : C → Type} {α β γ : Type}

def bind : Prog R α → (α → Prog R β) → Prog R β
  | ret a, f => f a
  | call c k, f => call c fun r => (k r).bind f

instance : Monad (Prog R) where
  pure := ret
  bind := bind

@[simp] theorem pure_eq (a : α) : (pure a : Prog R α) = ret a := rfl

@[simp] theorem bind_eq (p : Prog R α) (f : α → Prog R β) : p >>= f = p.bind f := rfl

@[simp] theorem ret_bind (a : α) (f : α → Prog R β) : (ret a : Prog R α).bind f = f a := rfl

@[simp] theorem call_bind (c : C) (k : R c → Prog R α) (f : α → Prog R β) :
    (call c k).bind f = call c fun r => (k r).bind f := rfl

/-! ## Protocols -/

/-- an automaton over commands -/
structure Protocol (R : C → Type) (S : Type) where
  allowed : S → C → Prop
  /-- the responses the program may rely on -/
  expects : S → (c : C) → R c → Prop
  next : S → (c : C) → R c → S

variable {S : Type} (P : Protocol R S)

def wp (Q : S → α → Prop) : Prog R α → S → Prop
  | ret a, s => Q s a
  | call c k, s => P.allowed s c ∧ ∀ r, P.expects s c r → wp Q (k r) (P.next s c r)

@[simp] theorem wp_ret (Q : S → α → Prop) (a : α) (s : S) : wp P Q (ret a) s ↔ Q s a := Iff.rfl

theorem wp_call (Q : S → α → Prop) (c : C) (k : R c → Prog R α) (s : S) :
    wp P Q (call c k) s ↔ P.allowed s c ∧ ∀ r, P.expects s c r → wp P Q (k r) (P.next s c r) := Iff.rfl

variable {P} {p : Prog R α} {f : α → Prog R β}

/-- a program in sequence: the first part establishes what the second needs -/
theorem wp_bind {Q : S → β → Prop} {s : S} : wp P Q (p.bind f) s ↔ wp P (fun s' a => wp P Q (f a) s') p s := by
  induction p generalizing s with
  | ret => exact Iff.rfl
  | call c k ih =>
    simp only [call_bind, wp_call]
    constructor
    · rintro ⟨hc, h⟩
      exact ⟨hc, fun r hr => (ih r).1 (h r hr)⟩
    · rintro ⟨hc, h⟩
      exact ⟨hc, fun r hr => (ih r).2 (h r hr)⟩

theorem wp_mono {Q Q' : S → α → Prop} (hQ : ∀ s a, Q s a → Q' s a) {s : S} (h : wp P Q p s) : wp P Q' p s := by
  induction p generalizing s with
  | ret a => exact hQ s a h
  | call c k ih => exact ⟨h.1, fun r hr => ih r (h.2 r hr)⟩

theorem wp_ite {Q : S → α → Prop} {c : Prop} [Decidable c] {p p' : Prog R α} {s : S} (h : c → wp P Q p s)
    (h' : ¬ c → wp P Q p' s) : wp P Q (if c then p else p') s := by
  by_cases hc : c
  · rw [if_pos hc]; exact h hc
  · rw [if_neg hc]; exact h' hc

/-! ## Results -/

/-- every value the program can return satisfies `Q` -/
def Results (Q : α → Prop) : Prog R α → Prop
  | ret a => Q a
  | call _ k => ∀ r, Results Q (k r)

theorem Results.mono {Q Q' : α → Prop} (hQ : ∀ a, Q a → Q' a) (h : Results Q p) : Results Q' p := by
  induction p with
  | ret a => exact hQ a h
  | call c k ih => exact fun r => ih r (h r)

/-- what a program in sequence returns, the last part returns -/
theorem results_bind {Q : β → Prop} (p : Prog R α) (h : ∀ a, Results Q (f a)) : Results Q (p.bind f) := by
  induction p with
  | ret a => exact h a
  | call c k ih => exact fun r => ih r

variable {Q : α → Prop}

theorem results_bind_of {Q' : β → Prop} (hp : Results Q p)
    (h : ∀ a, Q a → Results Q' (f a)) : Results Q' (p.bind f) := by
  induction p with
  | ret a => exact h a hp
  | call c k ih => exact fun r => ih r (hp r)

theorem Results.and {Q Q' : α → Prop} (h : Results Q p) (h' : Results Q' p) : Results (fun a => Q a ∧ Q' a) p := by
  induction p with
  | ret => exact ⟨h, h'⟩
  | call c k ih => exact fun r => ih r (h r) (h' r)

theorem results_true (p : Prog R α) : Results (fun _ => True) p := by
  induction p with
  | ret => trivial
  | call c k ih => exact fun r => ih r

/-- under a protocol that allows every command -/
theorem Results.wp {S : Type} {P : Protocol R S} (hall : ∀ s c, P.allowed s c)
    (h : Results Q p) (s : S) : wp P (fun _ a => Q a) p s := by
  induction p generalizing s with
  | ret => exact h
  | call c k ih => exact ⟨hall s c, fun r _ => ih r (h r) _⟩

/-- what is known of the returned value comes on top of what the protocol gives -/
theorem Results.and_wp {S : Type} {P : Protocol R S} {Q : S → α → Prop} {Q' : α → Prop} {s : S}
    (h : Results Q' p) (hp : Prog.wp P Q p s) : Prog.wp P (fun s' a => Q s' a ∧ Q' a) p s := by
  induction p generalizing s with
  | ret => exact ⟨hp, h⟩
  | call c k ih => exact ⟨hp.1, fun r hr => ih r (h r) (hp.2 r hr)⟩

/-- `a` is what the program returns under some responses -/
inductive Yields : Prog R α → α → Prop where
  | ret (a : α) : Yields (ret a) a
  | call (c : C) (k : R c → Prog R α) (r : R c) (a : α) (h : Yields (k r) a) : Yields (call c k) a

theorem Results.of_yields (h : Results Q p) {a : α} (hp : Yields p a) : Q a := by
  induction hp with
  | ret => exact h
  | call c k r a _ ih => exact ih (h r)

/-- a program that always gets a response returns -/
theorem Results.exists [∀ c, Nonempty (R c)] (h : Results Q p) : ∃ a, Q a := by
  induction p with
  | ret a => exact ⟨a, h⟩
  | call c k ih =>
    obtain ⟨r⟩ := (inferInstance : Nonempty (R c))
    exact ih r (h r)

/-! ## Commands -/

/-- every command the program can perform satisfies `A` -/
def Calls (A : C → Prop) : Prog R α → Prop
  | ret _ => True
  | call c k => A c ∧ ∀ r, Calls A (k r)

variable {A : C → Prop}

theorem calls_single {c : C} (h : A c) : Calls A (call c (ret : R c → Prog R (R c))) :=
  ⟨h, fun _ => trivial⟩

theorem calls_bind (hp : Calls A p) (hf : ∀ a, Calls A (f a)) : Calls A (p.bind f) := by
  induction p with
  | ret a => exact hf a
  | call c k ih => exact ⟨hp.1, fun r => ih r (hp.2 r)⟩

theorem calls_ite {c : Prop} [Decidable c] {p p' : Prog R α} (h : Calls A p) (h' : Calls A p') :
    Calls A (if c then p else p') := by
  split_ifs
  · exact h
  · exact h'

theorem Calls.mono {A A' : C → Prop} (hA : ∀ c, A c → A' c) (h : Calls A p) : Calls A' p := by
  induction p with
  | ret => trivial
  | call c k ih => exact ⟨hA c h.1, fun r => ih r (h.2 r)⟩

/-- commands a protocol allows in every state, and what the program returns -/
theorem Calls.wp {S : Type} {P : Protocol R S} (hA : ∀ s c, A c → P.allowed s c)
    (h : Calls A p) (hQ : Results Q p) (s : S) : wp P (fun _ a => Q a) p s := by
  induction p generalizing s with
  | ret => exact hQ
  | call c k ih => exact ⟨hA s c h.1, fun r _ => ih r (h.2 r) (hQ r) _⟩

/-! ## Runs on a machine -/

section

variable {M : Type} (exec : M → (c : C) → R c → M → Prop)

/-- every run of the program on the machine, undisturbed, ends in `Q` -/
def Ends (Q : M → α → Prop) : Prog R α → M → Prop
  | ret a, m => Q m a
  | call c k, m => ∀ r m', exec m c r m' → Ends Q (k r) m'

variable {exec}

theorem ends_bind {Q : M → β → Prop} {m : M} :
    Ends exec Q (p.bind f) m ↔ Ends exec (fun m' a => Ends exec Q (f a) m') p m := by
  induction p generalizing m with
  | ret => exact Iff.rfl
  | call c k ih =>
    constructor
    · exact fun h r m' hx => (ih r).1 (h r m' hx)
    · exact fun h r m' hx => (ih r).2 (h r m' hx)

theorem Ends.mono {Q Q' : M → α → Prop} (hQ : ∀ m a, Q m a → Q' m a) {m : M} (h : Ends exec Q p m) :
    Ends exec Q' p m := by
  induction p generalizing m with
  | ret a => exact hQ m a h
  | call c k ih => exact fun r m' hx => ih r (h r m' hx)

end

end Prog

end AccessPoint
