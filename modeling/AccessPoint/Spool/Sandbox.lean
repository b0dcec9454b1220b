/-
The sandboxes of spooled jobs and the files in them (internal/spool/spool.go, `SandboxDir`, `doSpool` and `dirSink`;
shadow/transfer.go, `iwdSink`; internal/qmgmt/handler.go, `setJobFactory` and `sendMaterializeData`).

The sandbox of job c.p is $(SPOOL)/<c mod 10000>/<p mod 10000>/cluster<c>.proc<p>.subproc0. Many jobs share the two
bucket directories; the last element tells them apart. A job factory keeps its digest and its items in the bucket of its
cluster, beside the buckets of the procs.

The disk is a tree without links. An operation is one call of a sink, by any of the transfers under way, or the write of
a factory file; one that the system refuses for want of rights or space does nothing and is left out of a run.

- `sandboxes_apart`: no location is in the sandboxes of two jobs.
- `perform_own`, `perform_other`: an operation of the job does the same whatever the other jobs did, and one of another
  job does nothing to the sandbox.
- `performAll_keeps`: a file stays until its own place is written.
- `performAll_isolated`: the sandbox of a job is what the operations of the job make of it.
-/
import AccessPoint.Core.Decimal
import AccessPoint.Core.Runs
import AccessPoint.Core.Tree
import AccessPoint.Factory.Digest
import AccessPoint.Spool.Sinks

namespace AccessPoint

namespace Text

/-- a character of a numeral is a digit or the sign -/
theorem numeral_notMem (n : ℤ) {c : Char} (hdigit : c.isDigit = false) (hsign : c ≠ '-') : c ∉ (toString n).toList := by
  intro hc
  rcases numeral_chars n c hc with h | h
  · rw [hdigit] at h
    cases h
  · exact hsign h

theorem numeral_name (n : ℤ) : Path.Name (toString n).toList := by
  have hdot : '.' ∉ (toString n).toList := numeral_notMem n (by decide) (by decide)
  refine ⟨⟨numeral_ne_nil n, fun h => ?_, numeral_notMem n (by decide) (by decide)⟩, fun h => ?_⟩
  · exact hdot (h ▸ List.mem_cons_self)
  · exact hdot (h ▸ List.mem_cons_self)

end Text

namespace Spool

open Text AccessPoint.Path List

variable {E : Type} [ClassAdLib E]

/-- the last element of the path of a sandbox -/
def sandboxName (k : JobKey) : List Char :=
  ("cluster" ++ toString k.cluster ++ ".proc" ++ toString k.proc ++ ".subproc0").toList

/-- the buckets and the name, below the spool directory -/
def sandboxPath (k : JobKey) : List (List Char) :=
  [(toString (k.cluster.tmod 10000)).toList, (toString (k.proc.tmod 10000)).toList, sandboxName k]

/-- `SandboxDir` -/
def sandboxDir (spoolDir : String) (k : JobKey) : String := String.ofList (joinAll (spoolDir.toList :: sandboxPath k))

/-! ## The path of a sandbox -/

variable (k : JobKey)

theorem sandboxName_eq :
    sandboxName k = "cluster".toList ++
      ((toString k.cluster).toList ++ '.' :: ("proc".toList ++ ((toString k.proc).toList ++
      '.' :: "subproc0".toList))) := by
  have hproc : ".proc".toList = '.' :: "proc".toList := rfl
  have hsubproc : ".subproc0".toList = '.' :: "subproc0".toList := rfl
  simp only [sandboxName, String.toList_append, append_assoc, hproc, hsubproc, cons_append]

theorem sandboxName_name : Name (sandboxName k) := by
  have hslash : '/' ∉ sandboxName k := by
    have hc := numeral_notMem k.cluster (c := '/') (by decide) (by decide)
    have hp := numeral_notMem k.proc (c := '/') (by decide) (by decide)
    rw [sandboxName_eq]
    simp only [mem_append, mem_cons, not_or]
    exact ⟨by decide, hc, by decide, by decide, hp, by decide, by decide⟩
  have hhead : (sandboxName k).head? = some 'c' := by rw [sandboxName_eq]; rfl
  refine ⟨⟨fun h => ?_, fun h => ?_, hslash⟩, fun h => ?_⟩ <;> rw [h] at hhead <;> exact absurd hhead (by decide)

/-- the text before the first dot has the cluster, the text after it the proc -/
theorem sandboxName_injective {k k' : JobKey} (h : sandboxName k = sandboxName k') : k = k' := by
  have hcut : ∀ {a b : ℤ} {s t : List Char}, (toString a).toList ++ '.' :: s = (toString b).toList ++ '.' :: t → a = b ∧
    s = t := by
    intro a b s t hab
    have ha : '.' ∉ (toString a).toList := numeral_notMem a (by decide) (by decide)
    have hb : '.' ∉ (toString b).toList := numeral_notMem b (by decide) (by decide)
    have hsame : (toString a).toList = (toString b).toList := by
      rw [← (takeWhile_ne_append ha s).1, hab, (takeWhile_ne_append hb t).1]
    rw [hsame] at hab
    exact ⟨numeral_injective hsame, (cons.inj (append_cancel_left hab)).2⟩
  rw [sandboxName_eq, sandboxName_eq] at h
  obtain ⟨hc, hrest⟩ := hcut (append_cancel_left h)
  obtain ⟨hp, -⟩ := hcut (append_cancel_left hrest)
  cases k
  cases k'
  rw [JobKey.mk.injEq]
  exact ⟨hc, hp⟩

theorem sandboxPath_names : ∀ name ∈ sandboxPath k, Name name := by
  intro name hin
  simp only [sandboxPath, mem_cons, not_mem_nil, or_false] at hin
  rcases hin with rfl | rfl | rfl
  · exact numeral_name _
  · exact numeral_name _
  · exact sandboxName_name k

/-! ## Locations -/

/-- the names a path goes through; a relative path is taken from where its leading parents lead -/
def places (path : String) : List (List Char) := (elements path.toList).filter (· ≠ up)

theorem places_name {path : String} {name : List Char} (h : name ∈ places path) : Name name := by
  obtain ⟨helem, hup⟩ := mem_filter.1 h
  exact ⟨elements_part helem, by simpa using hup⟩

theorem places_append {path root : String} {names : List (List Char)}
    (h : elements path.toList = elements root.toList ++ names)
    (hup : up ∉ names) : places path = places root ++ names := by
  have hall : names.filter (· ≠ up) = names := by
    rw [filter_eq_self]
    intro name hin
    simpa using fun he : name = up => hup (he ▸ hin)
  rw [places, h, filter_append, hall]
  rfl

/-- an entry of a directory -/
abbrev Elem := {name : List Char // Name name}

/-- the location a path names -/
def locate (path : String) : List Elem := (places path).attachWith Name fun _ => places_name

theorem locate_val (path : String) : (locate path).map Subtype.val = places path :=
  attachWith_map_subtype_val _

theorem locate_under {a b : String} : locate a <+: locate b ↔ places a <+: places b := by
  rw [← locate_val a, ← locate_val b, prefix_map_iff_of_injective Subtype.val_injective]

theorem sandboxDir_elements (spoolDir : String) (k : JobKey) :
    elements (sandboxDir spoolDir k).toList = elements spoolDir.toList ++ sandboxPath k := by
  have hne : sandboxPath k ≠ [] := cons_ne_nil _ _
  rw [sandboxDir, String.toList_ofList, elements_joinAll, (joinAll_names spoolDir.toList hne (sandboxPath_names k)).2]

theorem up_notMem_sandboxPath : up ∉ sandboxPath k := fun h => (sandboxPath_names k up h).2 rfl

theorem sandboxDir_places (spoolDir : String) (k : JobKey) :
    places (sandboxDir spoolDir k) = places spoolDir ++ sandboxPath k :=
  places_append (sandboxDir_elements spoolDir k) (up_notMem_sandboxPath k)

/-- **No location is in the sandboxes of two jobs.** -/
theorem sandboxes_apart {spoolDir : String} {k k' : JobKey} {loc : List Elem}
    (h : locate (sandboxDir spoolDir k) <+: loc)
    (h' : locate (sandboxDir spoolDir k') <+: loc) : k = k' := by
  obtain ⟨_, hrest⟩ := h
  obtain ⟨_, hrest'⟩ := h'
  have hsame := congrArg (map Subtype.val) (hrest.trans hrest'.symm)
  rw [map_append, map_append, locate_val, locate_val, sandboxDir_places, sandboxDir_places, append_assoc,
    append_assoc] at hsame
  have hpath := append_cancel_left hsame
  simp only [sandboxPath, cons_append, cons.injEq] at hpath
  exact sandboxName_injective hpath.2.2.1

/-- the path of a file of a job factory -/
theorem spooledPath_places (spoolDir : String) (c : ℤ) {ext : String} (hext : '/' ∉ ext.toList) :
    places (spooledPath spoolDir c ext) = places spoolDir ++
      [(toString (c.tmod 10000)).toList, "condor_submit.".toList ++ ((toString c).toList ++ ext.toList)] := by
  have hname : Name ("condor_submit.".toList ++ ((toString c).toList ++ ext.toList)) := by
    have hc := numeral_notMem c (c := '/') (by decide) (by decide)
    refine ⟨⟨cons_ne_nil _ _, fun h => absurd (cons.inj h).1 (by decide), ?_⟩,
      fun h => absurd (cons.inj h).1 (by decide)⟩
    simp only [mem_append, not_or]
    exact ⟨by decide, hc, hext⟩
  have hnames : ∀ name ∈ [(toString (c.tmod 10000)).toList, "condor_submit.".toList ++
    ((toString c).toList ++ ext.toList)],
      Name name := by
    intro name hin
    rcases mem_cons.1 hin with rfl | hin
    · exact numeral_name _
    · rw [mem_singleton.1 hin]
      exact hname
  have htext : (spooledPath spoolDir c ext).toList = spoolDir.toList ++ '/' :: joinWith '/'
      [(toString (c.tmod 10000)).toList, "condor_submit.".toList ++ ((toString c).toList ++ ext.toList)] := by
    have hslash : "/".toList = ['/'] := rfl
    have hsubmit : "/condor_submit.".toList = '/' :: "condor_submit.".toList := rfl
    simp only [spooledPath, String.toList_append, append_assoc, hslash, hsubmit, cons_append, nil_append,
      joinWith]
  have hwritten := components_joined (cons_ne_nil _ _) hnames
  have hup : up ∉ [(toString (c.tmod 10000)).toList, "condor_submit.".toList ++ ((toString c).toList ++ ext.toList)] :=
    fun hin => (hnames up hin).2 rfl
  apply places_append _ hup
  rw [htext, elements_append spoolDir.toList (by rwa [hwritten]), hwritten]

/-- a file of a factory is in no sandbox, and above none -/
theorem spooledPath_apart (spoolDir : String) (k : JobKey) (c : ℤ) {ext : String} (hext : '/' ∉ ext.toList) :
    ¬ locate (sandboxDir spoolDir k) <+: locate (spooledPath spoolDir c ext) ∧
      ¬ locate (spooledPath spoolDir c ext) <+: locate (sandboxDir spoolDir k) := by
  rw [locate_under, locate_under, sandboxDir_places, spooledPath_places spoolDir c hext, prefix_append_right_inj,
    prefix_append_right_inj]
  constructor
  · intro h
    have hlen : 3 ≤ 2 := h.length_le
    omega
  · intro h
    -- the bucket of a proc is a numeral, the name of the file is none
    simp only [sandboxPath, cons_prefix_cons] at h
    have hdot : '.' ∈ (toString (k.proc.tmod 10000)).toList := h.2.1 ▸ mem_append_left _ (by decide)
    exact numeral_notMem _ (by decide) (by decide) hdot

theorem spooledDigestPath_apart (spoolDir : String) (k : JobKey) (c : ℤ) :
    ¬ locate (sandboxDir spoolDir k) <+: locate (spooledDigestPath spoolDir c) ∧
      ¬ locate (spooledDigestPath spoolDir c) <+: locate (sandboxDir spoolDir k) :=
  spooledPath_apart spoolDir k c (by decide)

theorem spooledItemsPath_apart (spoolDir : String) (k : JobKey) (c : ℤ) :
    ¬ locate (sandboxDir spoolDir k) <+: locate (spooledItemsPath spoolDir c) ∧
      ¬ locate (spooledItemsPath spoolDir c) <+: locate (sandboxDir spoolDir k) :=
  spooledPath_apart spoolDir k c (by decide)

/-! ## The operations on the disk -/

structure File where
  perm : ℤ
  bytes : List UInt8
  deriving DecidableEq

abbrev Disk := Tree.Disk Elem File

/-- the sinks whose root is a sandbox -/
inductive Receiver where
  /-- `dirSink`: an upload -/
  | upload (k : JobKey)
  /-- `iwdSink`: the output of a spooled job, whose Iwd is the sandbox -/
  | output (k : JobKey) (remap : KeyMap String String) (owner : String)

def Receiver.job : Receiver → JobKey
  | .upload k => k
  | .output k _ _ => k

def Receiver.dest (E : Type) [ClassAdLib E] (spoolDir : String) : Receiver → String → Except String String
  | .upload k, name => DirSink.dest E ⟨sandboxDir spoolDir k⟩ name
  | .output k remap owner, name => IwdSink.dest E ⟨sandboxDir spoolDir k, remap, owner⟩ name

/-- `File` of a sink: the mode counts when the file is new, and 0 is taken for 0644 -/
def received (mode : ℤ) (bytes : List UInt8) : Option File → File
  | none => ⟨if mode % 512 = 0 then 420 else mode % 512, bytes⟩
  | some old => ⟨old.perm, bytes⟩

theorem received_bytes (mode : ℤ) (bytes : List UInt8) (old : Option File) :
    (received mode bytes old).bytes = bytes := by
  cases old <;> rfl

inductive Op where
  /-- `doSpool` makes the sandbox -/
  | sandbox (k : JobKey)
  | mkdir (via : Receiver) (name : String)
  | file (via : Receiver) (name : String) (mode : ℤ) (bytes : List UInt8)
  /-- the files of a job factory -/
  | digest (cluster : ℤ) (text : List UInt8)
  | items (cluster : ℤ) (data : List UInt8)

/-- the job whose sandbox an operation is about -/
def Op.job : Op → Option JobKey
  | .sandbox k => some k
  | .mkdir via _ => some via.job
  | .file via _ _ _ => some via.job
  | .digest _ _ => none
  | .items _ _ => none

section

variable (E : Type) [ClassAdLib E] (spoolDir : String)

/-- where an operation writes a file -/
def Op.target : Op → Option (List Elem)
  | .file via name _ _ => (via.dest E spoolDir name).toOption.map locate
  | .digest c _ => some (locate (spooledDigestPath spoolDir c))
  | .items c _ => some (locate (spooledItemsPath spoolDir c))
  | _ => none

def perform (disk : Disk) : Op → Disk
  | .sandbox k => (Tree.mkdirAll disk (locate (sandboxDir spoolDir k))).getD disk
  | .mkdir via name =>
    match via.dest E spoolDir name with
    | .error _ => disk
    | .ok path => (Tree.mkdirAll disk (locate path)).getD disk
  | .file via name mode bytes =>
    match via.dest E spoolDir name with
    | .error _ => disk
    | .ok path => (Tree.store disk (locate path) (received mode bytes)).getD disk
  | .digest c text => (Tree.store disk (locate (spooledDigestPath spoolDir c)) (received 420 text)).getD disk
  | .items c data => (Tree.store disk (locate (spooledItemsPath spoolDir c)) (received 420 data)).getD disk

def performAll (disk : Disk) (ops : List Op) : Disk := ops.foldl (perform E spoolDir) disk

/-- no file where the spool directory or one of its buckets is to be -/
def Roomy (disk : Disk) : Prop := ∀ k, Tree.Clear (locate (sandboxDir spoolDir k)) disk

end

variable {spoolDir : String} {refusal root name path : String}

/-- what a guarded destination adds to the elements of the root -/
theorem guardedDest_elements (h : guardedDest E refusal root name = .ok path) :
    isAbs name.toList = false ∧ up ∉ elements name.toList ∧
      elements path.toList = elements root.toList ++ elements name.toList := by
  unfold guardedDest at h
  dsimp only at h
  split_ifs at h with hguard
  obtain rfl := Except.ok.inj h
  rw [not_or, not_or] at hguard
  obtain ⟨habs, hne, hstart⟩ := hguard
  have hup := up_notMem_elements (Bool.eq_false_iff.2 habs) hne hstart
  rw [isAbs_clean] at habs
  rw [String.toList_ofList]
  exact ⟨Bool.eq_false_iff.2 habs, hup, elements_joined root.toList hup⟩

theorem guardedDest_places (h : guardedDest E refusal root name = .ok path) :
    places path = places root ++ elements name.toList := by
  obtain ⟨-, hup, helem⟩ := guardedDest_elements h
  exact places_append helem hup

/-- a receiver writes in the sandbox of its job -/
theorem Receiver.dest_under {via : Receiver} {name path : String} (h : via.dest E spoolDir name = .ok path) :
    locate (sandboxDir spoolDir via.job) <+: locate path := by
  rw [locate_under]
  cases via with
  | upload | output => exact ⟨_, (guardedDest_places h).symm⟩

/-- an operation does nothing, makes directories or stores a file at its target -/
theorem perform_cases (disk : Disk) (op : Op) :
    perform E spoolDir disk op = disk ∨ (∃ loc, perform E spoolDir disk op = (Tree.mkdirAll disk loc).getD disk) ∨
      ∃ loc f, op.target E spoolDir = some loc ∧ perform E spoolDir disk op = (Tree.store disk loc f).getD disk := by
  cases op with
  | sandbox =>
    simp only [perform]
    exact .inr (.inl ⟨_, rfl⟩)
  | mkdir via name =>
    simp only [perform]
    cases via.dest E spoolDir name with
    | error => exact .inl rfl
    | ok => exact .inr (.inl ⟨_, rfl⟩)
  | file via name =>
    simp only [perform, Op.target]
    cases via.dest E spoolDir name with
    | error => exact .inl rfl
    | ok => exact .inr (.inr ⟨_, _, rfl, rfl⟩)
  | digest | items =>
    simp only [perform, Op.target]
    exact .inr (.inr ⟨_, _, rfl, rfl⟩)

/-- a file stays, and so does what is above it, until its own place is written -/
theorem performAll_keeps {disk : Disk} {loc base : List Elem} {file : File} (hfile : Tree.fileAt disk loc = some file)
    (hbase : (disk.lookup base).isSome) {ops : List Op} (hops : ∀ op ∈ ops, op.target E spoolDir ≠ some loc) :
    Tree.fileAt (performAll E spoolDir disk ops) loc = some file ∧
      ((performAll E spoolDir disk ops).lookup base).isSome := by
  induction ops generalizing disk with
  | nil => exact ⟨hfile, hbase⟩
  | cons op ops ih =>
    have hop := hops op mem_cons_self
    have hstep : Tree.fileAt (perform E spoolDir disk op) loc = some file ∧
      ((perform E spoolDir disk op).lookup base).isSome := by
      rcases perform_cases (E := E) disk op with he | ⟨place, he⟩ | ⟨place, f, htarget, he⟩
      · rw [he]
        exact ⟨hfile, hbase⟩
      · rw [he]
        exact ⟨Tree.mkdirAll_keeps hfile, Tree.mkdirAll_grows hbase⟩
      · rw [he]
        have hne : loc ≠ place := fun heq => hop (by rw [htarget, heq])
        exact ⟨Tree.store_keeps f hfile hne, Tree.store_grows f hbase⟩
    exact ih hstep.1 hstep.2 fun o ho => hops o (mem_cons_of_mem op ho)

/-! ## Isolation -/

/-- a location in the sandbox of another job is not in the sandbox of the job, and not above it -/
theorem apart_of_ne {k k' : JobKey} (hne : k' ≠ k) {loc : List Elem} (h : locate (sandboxDir spoolDir k') <+: loc) :
    ¬ locate (sandboxDir spoolDir k) <+: loc ∧ ¬ loc <+: locate (sandboxDir spoolDir k) := by
  refine ⟨fun hin => hne (sandboxes_apart h hin), fun habove => hne ?_⟩
  exact sandboxes_apart (h.trans habove) prefix_rfl

/-- **An operation of the job does the same on both disks.** -/
theorem perform_own {k : JobKey} {op : Op} (hop : op.job = some k) {disk disk' : Disk}
    (h : Tree.Same (locate (sandboxDir spoolDir k)) disk disk') :
    Tree.Same (locate (sandboxDir spoolDir k)) (perform E spoolDir disk op) (perform E spoolDir disk' op) := by
  cases op with
  | sandbox =>
    obtain rfl := Option.some.inj hop
    simp only [perform]
    exact h.mkdirAll prefix_rfl
  | mkdir via name =>
    obtain rfl := Option.some.inj hop
    simp only [perform]
    cases hdest : via.dest E spoolDir name with
    | error => exact h
    | ok => exact h.mkdirAll (Receiver.dest_under hdest)
  | file via name =>
    obtain rfl := Option.some.inj hop
    simp only [perform]
    cases hdest : via.dest E spoolDir name with
    | error => exact h
    | ok => exact h.store _ (Receiver.dest_under hdest)
  | digest | items => cases hop

/-- **Any other operation does nothing to the sandbox.** -/
theorem perform_other {k : JobKey} {op : Op} (hop : op.job ≠ some k) {disk disk' : Disk}
    (h : Tree.Same (locate (sandboxDir spoolDir k)) disk disk') :
    Tree.Same (locate (sandboxDir spoolDir k)) (perform E spoolDir disk op) disk' := by
  have hne : ∀ {j : JobKey}, op.job = some j → j ≠ k := fun hj he => hop (by rw [hj, he])
  cases op with
  | sandbox =>
    simp only [perform]
    exact h.mkdirAll_elsewhere (apart_of_ne (hne rfl) prefix_rfl).1
  | mkdir via name =>
    simp only [perform]
    cases hdest : via.dest E spoolDir name with
    | error => exact h
    | ok => exact h.mkdirAll_elsewhere (apart_of_ne (hne rfl) (Receiver.dest_under hdest)).1
  | file via name =>
    simp only [perform]
    cases hdest : via.dest E spoolDir name with
    | error => exact h
    | ok =>
      obtain ⟨hin, habove⟩ := apart_of_ne (hne rfl) (Receiver.dest_under hdest)
      exact h.store_elsewhere _ hin habove
  | digest c =>
    obtain ⟨hin, habove⟩ := spooledDigestPath_apart spoolDir k c
    simp only [perform]
    exact h.store_elsewhere _ hin habove
  | items c =>
    obtain ⟨hin, habove⟩ := spooledItemsPath_apart spoolDir k c
    simp only [perform]
    exact h.store_elsewhere _ hin habove

/-- **The sandbox of a job is what the operations of the job make of it**, whatever the others do meanwhile. -/
theorem performAll_isolated {disk : Disk} (hroomy : Roomy spoolDir disk) (k : JobKey) (ops : List Op) :
    Tree.Same (locate (sandboxDir spoolDir k)) (performAll E spoolDir disk ops)
      (performAll E spoolDir disk (ops.filter fun op => op.job = some k)) := by
  refine Runs.foldl_purge (fun op => decide (op.job = some k)) (fun s s' op hop => ?_) (fun s s' op hop => ?_)
    (Tree.Same.refl (hroomy k)) ops
  · exact perform_own (of_decide_eq_true hop)
  · exact perform_other (of_decide_eq_false hop)

theorem performAll_roomy {disk : Disk} (hroomy : Roomy spoolDir disk) (ops : List Op) :
    Roomy spoolDir (performAll E spoolDir disk ops) :=
  fun k => (performAll_isolated hroomy k ops).clear

end Spool

end AccessPoint
