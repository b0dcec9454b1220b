/-
Materialization does not depend on history (internal/factory/materialize.go).

All procs of a factory share one macro table. A call of `Materialize` writes the live variables and the foreach
variables into it and leaves them there, under the names the digest chose, which may be names its assignments have too.
Every call writes the same names (`liveNames`), so whatever earlier calls left is overwritten before anything is read,
and every other name is as `ParseDigest` left it.

- `lookup_setVars`: what a name holds after a call's writes.
- `Unspoiled`: a digest that differs from the parsed one in the live names at most; every call keeps it.
- `materialize_independent`: the attributes after any calls are those of a fresh copy.
-/
import AccessPoint.Core.Runs
import AccessPoint.Factory.Digest

namespace AccessPoint

open ClassAdLib Digest List

variable {E : Type} [ClassAdLib E]

/-! ## Writes to the macro table -/

/-- the names `setVar` writes -/
def macroNames (E : Type) [ClassAdLib E] (name : String) : List String := [name, toLower E name]

/-- the variables set one after the other -/
def setVars (E : Type) [ClassAdLib E] (cfg : Config) (vars : List (String × String)) : Config :=
  vars.foldl (fun cfg v => setVar E cfg v.1 v.2) cfg

theorem lookup_setVar (cfg : Config) (name value k : String) :
    (setVar E cfg name value).lookup k = if k ∈ macroNames E name then some value else cfg.lookup k := by
  simp only [setVar, Config.set, macroNames, mem_cons, not_mem_nil, or_false]
  by_cases hl : toLower E name = name
  · simp [hl, KeyMap.lookup_insert_ite]
  · rw [if_pos hl]
    simp only [KeyMap.lookup_insert_ite]
    by_cases hk : k = toLower E name
    · simp [hk]
    · simp [hk]

/-- a name written holds what the writes say, whatever the table was; any other holds what it held -/
theorem lookup_setVars (cfg : Config) (vars : List (String × String)) (k : String) :
    (∃ value, ∀ cfg : Config, (setVars E cfg vars).lookup k = some value) ∧ (∃ v ∈ vars, k ∈ macroNames E v.1) ∨
      (setVars E cfg vars).lookup k = cfg.lookup k ∧ ∀ v ∈ vars, k ∉ macroNames E v.1 := by
  induction vars using reverseRecOn generalizing cfg with
  | nil => exact .inr ⟨rfl, fun v hv => nomatch hv⟩
  | append_singleton vars v ih =>
    have hlast : ∀ cfg, (setVars E cfg (vars ++ [v])).lookup k =
        if k ∈ macroNames E v.1 then some v.2 else (setVars E cfg vars).lookup k := by
      intro cfg
      rw [setVars, foldl_append]
      exact lookup_setVar _ _ _ _
    by_cases hk : k ∈ macroNames E v.1
    · exact .inl ⟨⟨v.2, fun cfg => by rw [hlast, if_pos hk]⟩, v, by simp, hk⟩
    · rcases ih cfg with ⟨⟨value, hval⟩, w, hw, hkw⟩ | ⟨hsame, hnone⟩
      · exact .inl ⟨⟨value, fun cfg => by rw [hlast, if_neg hk, hval]⟩, w, mem_append_left _ hw, hkw⟩
      · refine .inr ⟨by rw [hlast, if_neg hk, hsame], fun w hw => ?_⟩
        rcases mem_append.1 hw with hw | hw
        · exact hnone w hw
        · rw [mem_singleton.1 hw]
          exact hk

/-! ## The names a call writes -/

/-- the variables of a call, in the order they are set -/
def Digest.vars (d : Digest) (cluster proc : ℤ) (rawRow : String) : List (String × String) :=
  let fields := splitRow rawRow d.varNames.length
  [("Cluster", toString cluster), ("ClusterId", toString cluster), ("Process", toString proc),
    ("ProcId", toString proc),
    ("Node", toString proc), ("Step", toString (d.step proc)), ("Row", toString (d.rowIndex proc)),
    ("ItemIndex", toString (d.rowIndex proc))] ++
    if d.varNames = [] then [("Item", rawRow)]
    else ("Item", "") :: d.varNames.zipIdx.map fun (name, i) => (name, fields.getD i "")

theorem Digest.withVars_eq [ConfigLib] (d : Digest) (cluster proc : ℤ) (rawRow : String) :
    d.withVars E cluster proc rawRow = setVars E d.cfg (d.vars cluster proc rawRow) := rfl

/-- the names every call writes, whatever its arguments -/
def Digest.liveNames (d : Digest) : List String :=
  ["Cluster", "ClusterId", "Process", "ProcId", "Node", "Step", "Row", "ItemIndex", "Item"] ++ d.varNames

theorem Digest.vars_names (d : Digest) (cluster proc : ℤ) (rawRow : String) :
    (d.vars cluster proc rawRow).map Prod.fst = d.liveNames := by
  unfold vars liveNames
  split_ifs with h
  · simp [h]
  · simp only [map_cons, map_map, cons_append, nil_append, cons.injEq,
      true_and]
    exact zipIdx_map_fst 0 d.varNames

/-- the names a digest's calls write -/
def Digest.Live (E : Type) [ClassAdLib E] (d : Digest) (k : String) : Prop :=
  ∃ name ∈ d.liveNames, k ∈ macroNames E name

theorem Digest.mem_vars {d : Digest} {cluster proc : ℤ} {rawRow k : String} :
    (∃ v ∈ d.vars cluster proc rawRow, k ∈ macroNames E v.1) ↔ d.Live E k := by
  unfold Digest.Live
  rw [← d.vars_names cluster proc rawRow]
  simp

/-! ## Histories -/

/-- the digest is the parsed one but for what calls write -/
structure Digest.Unspoiled (E : Type) [ClassAdLib E] (parsed d : Digest) : Prop where
  assigns : d.assigns = parsed.assigns
  queueNum : d.queueNum = parsed.queueNum
  varNames : d.varNames = parsed.varNames
  cfg : ∀ k, ¬ parsed.Live E k → d.cfg.lookup k = parsed.cfg.lookup k

variable {parsed d : Digest}

theorem Digest.Unspoiled.vars (h : Digest.Unspoiled E parsed d) (cluster proc : ℤ) (rawRow : String) :
    d.vars cluster proc rawRow = parsed.vars cluster proc rawRow := by
  simp only [Digest.vars, Digest.step, Digest.rowIndex, h.queueNum, h.varNames]

variable [ConfigLib]

/-- with the variables of a call set, every name holds what it would in a fresh copy -/
theorem Digest.Unspoiled.lookup (h : Digest.Unspoiled E parsed d) (cluster proc : ℤ) (rawRow : String) :
    (d.withVars E cluster proc rawRow).lookup = (parsed.withVars E cluster proc rawRow).lookup := by
  funext k
  rw [withVars_eq, withVars_eq, h.vars]
  rcases lookup_setVars (E := E) d.cfg (parsed.vars cluster proc rawRow) k with ⟨⟨_, hval⟩, -⟩ | ⟨hsame, hnone⟩
  · rw [hval, hval]
  · have hdead : ¬ parsed.Live E k := fun hlive => by
      obtain ⟨v, hv, hk⟩ := mem_vars.2 hlive
      exact hnone v hv hk
    rcases lookup_setVars (E := E) parsed.cfg (parsed.vars cluster proc rawRow) k with ⟨-, v, hv, hk⟩ | ⟨hsame', -⟩
    · exact absurd hk (hnone v hv)
    · rw [hsame, hsame', h.cfg k hdead]

/-- a call leaves the digest unspoiled -/
theorem Digest.Unspoiled.call (h : Digest.Unspoiled E parsed d) (cluster proc : ℤ) (rawRow : String) :
    Digest.Unspoiled E parsed (d.materialize E cluster proc rawRow).2 := by
  refine ⟨h.assigns, h.queueNum, h.varNames, fun k hk => ?_⟩
  have hcfg : (d.materialize E cluster proc rawRow).2.cfg = setVars E d.cfg (parsed.vars cluster proc rawRow) := by
    rw [← h.vars]
    rfl
  rw [hcfg]
  rcases lookup_setVars (E := E) d.cfg (parsed.vars cluster proc rawRow) k with ⟨-, hwritten⟩ | ⟨hsame, -⟩
  · exact absurd (mem_vars.1 hwritten) hk
  · rw [hsame, h.cfg k hk]

/-- the table is read through its lookups only -/
theorem Assign.exprIn_congr {cfg cfg' : Config} (h : cfg.lookup = cfg'.lookup) (a : Assign) :
    (a.exprIn cfg : E) = a.exprIn cfg' := by
  have hkey : cfg.lookup a.key = cfg'.lookup a.key := congrFun h a.key
  have hget : cfg.get a.key = cfg'.get a.key := by simp only [Config.get, hkey, h]
  simp only [Assign.exprIn, hget]

/-- a call of `Materialize`: cluster, proc and row -/
abbrev MaterializeCall := ℤ × ℤ × String

/-- the digest after some calls -/
def Digest.after (E : Type) [ClassAdLib E] (d : Digest) (calls : List MaterializeCall) : Digest :=
  calls.foldl (fun d call => (d.materialize E call.1 call.2.1 call.2.2).2) d

/-- **Materialization does not depend on history.** Whatever calls were made on a digest, the next one returns what it
returns on a fresh copy. -/
theorem Digest.materialize_independent (d : Digest) (calls : List MaterializeCall) (cluster proc : ℤ)
    (rawRow : String) :
    ((d.after E calls).materialize E cluster proc rawRow).1 = (d.materialize E cluster proc rawRow).1 := by
  have hfresh : Digest.Unspoiled E d d := ⟨rfl, rfl, rfl, fun _ _ => rfl⟩
  have hrun : Digest.Unspoiled E d (d.after E calls) :=
    Runs.foldl_inv (fun _ call h => h.call call.1 call.2.1 call.2.2) hfresh calls
  funext x
  rw [materialize_apply, materialize_apply, lastFor, hrun.assigns]
  refine Option.map_congr fun a _ => ?_
  exact Assign.exprIn_congr (hrun.lookup cluster proc rawRow) a

end AccessPoint
