/-
Where received files land (internal/spool/spool.go, `dirSink`; shadow/transfer.go, `iwdSink`).

Both sinks are given a name by the other side and make a path of it: the spool server under the sandbox of the job, the
shadow under the job's Iwd, after giving the starter's stdout and stderr the names the job ad asks for. Both clean the
name, refuse it if it is rooted or starts with "..", and join it to the directory otherwise.

- `received_files_stay`: whatever the name, the remapping and the directory, the path is one under the directory.
-/
import AccessPoint.Core.Path
import AccessPoint.Spool.Transfers

namespace AccessPoint

open ClassAdLib

variable {E : Type} [ClassAdLib E]

/-- the destination of `name` under `root`, refused when the cleaned name leaves it -/
def guardedDest (E : Type) [ClassAdLib E] (refusal root name : String) : Except String String :=
  let clean := Path.clean name.toList
  if Path.isAbs clean ∨ clean = Path.up ∨ (Path.up ++ ['/']) <+: clean then .error (refusal ++ quote E name)
  else .ok (String.ofList (Path.join root.toList clean))

/-- the sink of an input upload -/
structure DirSink where
  root : String

/-- `dirSink.dest`; on Unix `filepath.FromSlash` is the identity -/
def DirSink.dest (E : Type) [ClassAdLib E] (s : DirSink) (name : String) : Except String String :=
  guardedDest E "spool: refusing sandbox path outside spool dir: " s.root name

/-- the sink of an output transfer -/
structure IwdSink where
  iwd : String
  remap : KeyMap String String
  owner : String

/-- `iwdSink.dest` -/
def IwdSink.dest (E : Type) [ClassAdLib E] (s : IwdSink) (name : String) : Except String String :=
  guardedDest E "shadow: refusing output path outside sandbox: " s.iwd ((s.remap.lookup name).getD name)

/-- a standard stream goes to the file the ad names, if it names one -/
def remapStream (ad : Ad E) (a : Attr) (remapName : String) (remap : KeyMap String String) : KeyMap String String :=
  let file := (ad.evaluateAttrString a).getD ""
  if file ≠ "" ∧ file ≠ remapName ∧ file ≠ "/dev/null" then remap.insert remapName file else remap

/-- `buildOutputSink` -/
def buildOutputSink (ad : Ad E) : Except String IwdSink :=
  let iwd := (ad.evaluateAttrString .iwd).getD ""
  if iwd = "" then .error "shadow: job ad has no Iwd for output transfer"
  else
    let remap := remapStream ad .err "_condor_stderr" (remapStream ad .out "_condor_stdout" ∅)
    match jobAccount ad with
    | .error err => .error ("shadow: " ++ err)
    | .ok owner => .ok ⟨iwd, remap, owner⟩

/-- a refusal, or a path under `root`: the components of the cleaned root and then others, none of them "..", rooted if
the root is -/
def StaysUnder (root : String) : Except String String → Prop
  | .error _ => True
  | .ok path =>
    Path.isAbs path.toList = Path.isAbs (Path.clean root.toList) ∧
      ∃ rest, Path.components path.toList = Path.components (Path.clean root.toList) ++ rest ∧ Path.up ∉ rest

theorem guardedDest_stays (refusal root name : String) : StaysUnder root (guardedDest E refusal root name) := by
  unfold guardedDest
  dsimp only
  split_ifs with h
  · exact trivial
  · rw [not_or, not_or] at h
    obtain ⟨habs, hne, hstart⟩ := h
    rw [StaysUnder, String.toList_ofList]
    exact Path.join_under root.toList (Bool.eq_false_iff.2 habs) hne hstart

/-- **Received files stay in the sandbox.** For every directory, every name on the wire and every remapping, both sinks
refuse the name or answer a path under the directory; the sink of an output transfer has a non-empty Iwd. -/
theorem received_files_stay (name : String) :
    (∀ sink : DirSink, StaysUnder sink.root (sink.dest E name)) ∧
      (∀ sink : IwdSink, StaysUnder sink.iwd (sink.dest E name)) ∧
      ∀ ad : Ad E, match buildOutputSink ad with
        | .error _ => True
        | .ok sink => sink.iwd ≠ "" ∧ ad.evaluateAttrString .iwd = some sink.iwd := by
  refine ⟨fun sink => guardedDest_stays _ sink.root name, fun sink => guardedDest_stays _ sink.iwd _, fun ad => ?_⟩
  unfold buildOutputSink
  dsimp only
  split_ifs with hiwd
  · exact trivial
  · cases jobAccount ad with
    | error => exact trivial
    | ok =>
      refine ⟨hiwd, ?_⟩
      cases h : ad.evaluateAttrString .iwd with
      | none => rw [h] at hiwd; exact absurd rfl hiwd
      | some => rfl

example : DirSink.dest Value ⟨"/spool/1"⟩ "a/./../sub//b" = .ok "/spool/1/sub/b" ∧
    DirSink.dest Value ⟨"/spool/1"⟩ "a/../../b" =
      .error ("spool: refusing sandbox path outside spool dir: " ++ quote Value "a/../../b") := by
  decide +kernel

end AccessPoint
