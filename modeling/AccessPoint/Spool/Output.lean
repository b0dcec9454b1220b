/-
The output of a job goes back (internal/spool/spool.go, `doTransfer`, `sendSandbox`, `outputSpecs` and `collectSandbox`;
internal/queue/spool.go, `SpoolQuery`).

A download names its jobs by a constraint, which is matched against the queue and the history. Of each job that the
caller owns and that has a local account go the files its ad lists, with Out, Err and UserLog, or every file of the
sandbox when no list is there. The name on the wire is relative to the sandbox. A listed name ".." is not refused; its
file is the bucket of the proc, which is never a regular file.

- `outputs_isolated`: what a download sends of a job depends on the operations on that job alone.
- `transfer_sends_own`: a caller gets files of their own jobs only, each under a name that leads back to where it was
  read.
- `upload_comes_back`: a file that is not written again comes back under its name, with its bytes.
-/
import AccessPoint.Spool.InputList
import AccessPoint.Spool.Sandbox

namespace AccessPoint

open ClassAdLib List

namespace Spool

open Text AccessPoint.Path

variable {E : Type} [ClassAdLib E]

/-- `filetransfer.FileSpec`; `Open` reads the file at `source` -/
structure FileSpec where
  wireName : String
  mode : ℤ
  size : ℕ
  source : String

def fileSpec (dir : String) (name : List Char) (file : File) : FileSpec :=
  ⟨String.ofList name, file.perm, file.bytes.length, String.ofList (join dir.toList name)⟩

/-! ## The files of a job -/

/-- the list an attribute holds, if it is there and not empty -/
def listAttr (ad : Ad E) (a : Attr) : Option String := (ad.evaluateAttrString a).filter (· ≠ "")

/-- the list of output files an ad carries -/
def outputList (ad : Ad E) : Option (List (List Char)) :=
  (((listAttr ad .spooledOutputFiles).or (listAttr ad .transferOutput)).or
    (listAttr ad (canon E "TransferOutputFiles"))).map
    Shadow.splitFileList

/-- Out, Err and UserLog ride along with a list -/
def rideAlong (ad : Ad E) : List (List Char) :=
  [Attr.out, Attr.err, Attr.userLog].filterMap fun a =>
    ((ad.evaluateAttrString a).filter fun v => !isNullFile E v && !isAbs v.toList).map String.toList

/-- the loop of `outputSpecs` over the listed names, `seen` those already looked at -/
def listedSpecs (disk : Disk) (dir : String) : List (List Char) → List (List Char) → List FileSpec
  | _, [] => []
  | seen, entry :: rest =>
    let name := clean entry
    if name = [] ∨ name = ['.'] ∨ seen.contains name ∨ (up ++ ['/']) <+: name ∨
      isAbs name then listedSpecs disk dir seen rest
    else
      match Tree.fileAt disk (locate (String.ofList (join dir.toList name))) with
      | none => listedSpecs disk dir (name :: seen) rest
      | some file => fileSpec dir name file :: listedSpecs disk dir (name :: seen) rest

/-- one entry of the disk, as the walk over `dir` meets it -/
def walked (dir : String) (entry : Sigma fun _ : List Elem => Tree.Node File) : Option FileSpec :=
  match entry.2 with
  | .dir => none
  | .file file =>
    if locate dir <+: entry.1 then
      some (fileSpec dir (render false ((entry.1.drop (locate dir).length).map Subtype.val)) file)
    else none

/-- `collectSandbox` -/
def collectSandbox (disk : Disk) (dir : String) : List FileSpec :=
  match disk.lookup (locate dir) with
  | none => []
  | some _ => (disk.entries.filterMap (walked dir)).mergeSort fun a b => a.wireName ≤ b.wireName

/-- `outputSpecs`: the files and their size -/
def outputSpecs (disk : Disk) (ad : Ad E) (dir : String) : List FileSpec × ℕ :=
  let specs := match outputList ad with
    | none => collectSandbox disk dir
    | some names => listedSpecs disk dir [] (names ++ rideAlong ad)
  (specs, (specs.map FileSpec.size).sum)

/-! ## Names that stay -/

/-- a cleaned relative name without parents -/
structure Stays (name : List Char) : Prop where
  relative : isAbs name = false
  noUp : up ∉ elements name
  cleaned : clean name = name

theorem Stays.components {name : List Char} (h : Stays name) : Path.components name = elements name := by
  rw [← components_clean, h.cleaned]

/-- a sink takes such a name as it is -/
theorem Stays.dest {name : List Char} (h : Stays name) (root : String) :
    DirSink.dest E ⟨root⟩ (String.ofList name) = .ok (String.ofList (join root.toList name)) := by
  have hne : name ≠ up := by
    intro he
    have hin : up ∈ Path.components up := by decide
    rw [he] at h
    exact h.noUp (h.components ▸ hin)
  have hstart : ¬ (up ++ ['/']) <+: name := by
    rintro ⟨_, rfl⟩
    refine h.noUp (h.components ▸ mem_filter.2 ⟨?_, by decide⟩)
    rw [append_assoc, singleton_append, splitAt_sep]
    exact mem_append_left _ (by decide)
  rw [DirSink.dest, guardedDest, String.toList_ofList]
  dsimp only
  rw [h.cleaned, if_neg (not_or.2 ⟨Bool.eq_false_iff.1 h.relative, not_or.2 ⟨hne, hstart⟩⟩)]

theorem Stays.elements_join {name : List Char} (h : Stays name) (dir : List Char) :
    elements (join dir name) = elements dir ++ elements name := by
  have hjoin := elements_joined dir h.noUp
  rwa [h.cleaned] at hjoin

/-- the location of a file of the sandbox -/
theorem Stays.under {name : List Char} (h : Stays name) (dir : String) :
    locate dir <+: locate (String.ofList (join dir.toList name)) := by
  rw [locate_under]
  refine ⟨elements name, (places_append ?_ h.noUp).symm⟩
  rw [String.toList_ofList, h.elements_join]

variable {entry : List Char}

/-- a name the loop keeps, other than ".." -/
theorem stays_clean (habs : isAbs (clean entry) = false) (hne : clean entry ≠ up)
    (hstart : ¬ (up ++ ['/']) <+: clean entry) : Stays (clean entry) := by
  refine ⟨habs, ?_, clean_clean entry⟩
  rw [elements_of_clean]
  exact up_notMem_elements habs hne hstart

variable {names : List (List Char)}

theorem elements_render (h : ∀ name ∈ names, Name name) : elements (render false names) = names := by
  have hcomp : Path.components (render false names) = names := components_render fun name hin => (h name hin).1
  have hup : up ∉ Path.components (render false names) := by
    rw [hcomp]
    exact fun hin => (h up hin).2 rfl
  rw [elements, elements_written hup, hcomp, append_nil, reverse_reverse]

theorem stays_render (h : ∀ name ∈ names, Name name) : Stays (render false names) := by
  have habs : isAbs (render false names) = false := isAbs_render fun name hin => (h name hin).1
  refine ⟨habs, ?_, ?_⟩
  · rw [elements_render h]
    exact fun hin => (h up hin).2 rfl
  · rw [clean, elements_render h, habs]

/-- the elements of a walk are names -/
theorem rel_names (rel : List Elem) : ∀ name ∈ rel.map Subtype.val, Name name := by
  intro name hin
  obtain ⟨e, -, rfl⟩ := mem_map.1 hin
  exact e.2

/-- the file a walk meets at `rel` is the one its name leads to -/
theorem locate_join_render (dir : String) (rel : List Elem) :
    locate (String.ofList (join dir.toList (render false (rel.map Subtype.val)))) = locate dir ++ rel := by
  have hstays := stays_render (rel_names rel)
  apply map_injective_iff.2 Subtype.val_injective
  rw [locate_val, map_append, locate_val]
  refine places_append ?_ (by rw [← elements_render (rel_names rel)]; exact hstays.noUp)
  rw [String.toList_ofList, hstays.elements_join, elements_render (rel_names rel)]

/-! ## What is sent -/

/-- a file of the sandbox, under a name that stays in it -/
def OfSandbox (disk : Disk) (dir : String) (spec : FileSpec) : Prop :=
  ∃ name file, Stays name ∧ Tree.fileAt disk (locate (String.ofList (join dir.toList name))) = some file ∧
    spec = fileSpec dir name file

/-- the parent of a sandbox is a bucket -/
theorem places_bucket (spoolDir : String) (k : JobKey) :
    places (String.ofList (join (sandboxDir spoolDir k).toList up)) =
      places spoolDir ++ [(toString (k.cluster.tmod 10000)).toList, (toString (k.proc.tmod 10000)).toList] := by
  have hsplit : elements (sandboxDir spoolDir k).toList = (elements spoolDir.toList ++
      [(toString (k.cluster.tmod 10000)).toList, (toString (k.proc.tmod 10000)).toList]) ++ [sandboxName k] := by
    rw [sandboxDir_elements, append_assoc]
    rfl
  refine places_append ?_ fun hin => up_notMem_sandboxPath k ((prefix_append _ [sandboxName k]).subset hin)
  rw [String.toList_ofList, elements_join_up hsplit (sandboxName_name k).2]

/-- no file is at the parent of a sandbox -/
theorem bucket_not_file {spoolDir : String} {disk : Disk} {k : JobKey}
    (h : Tree.Clear (locate (sandboxDir spoolDir k)) disk) :
    Tree.fileAt disk (locate (String.ofList (join (sandboxDir spoolDir k).toList up))) = none := by
  have hplaces := sandboxDir_places spoolDir k
  apply h
  · rw [locate_under, places_bucket, hplaces]
    exact ⟨[sandboxName k], by rw [append_assoc]; rfl⟩
  · intro he
    have hlen := congrArg length (congrArg (map Subtype.val) he)
    rw [locate_val, locate_val, places_bucket, hplaces, length_append, length_append] at hlen
    exact absurd (Nat.add_left_cancel hlen) (by decide : (2 : ℕ) ≠ 3)

/-- the loop passes an entry over, or its name stays in the sandbox or is ".." -/
theorem kept_name {seen : List (List Char)}
    (h : ¬ (clean entry = [] ∨ clean entry = ['.'] ∨ seen.contains (clean entry) = true ∨
      (up ++ ['/']) <+: clean entry ∨ isAbs (clean entry) = true)) :
    clean entry ∉ seen ∧ (Stays (clean entry) ∨ clean entry = up) := by
  simp only [not_or, contains_iff_mem] at h
  obtain ⟨-, -, hseen, hstart, habs⟩ := h
  refine ⟨hseen, ?_⟩
  by_cases hup : clean entry = up
  · exact .inr hup
  · exact .inl (stays_clean (Bool.eq_false_iff.2 habs) hup hstart)

section

variable {spoolDir : String} {k : JobKey} {disk disk' : Disk}

theorem listedSpecs_spec (hclear : Tree.Clear (locate (sandboxDir spoolDir k)) disk) (names seen : List (List Char)) :
    (∀ spec ∈ listedSpecs disk (sandboxDir spoolDir k) seen names,
        OfSandbox disk (sandboxDir spoolDir k) spec ∧ spec.wireName.toList ∉ seen) ∧
      ((listedSpecs disk (sandboxDir spoolDir k) seen names).map FileSpec.wireName).Nodup := by
  induction names generalizing seen with
  | nil => exact ⟨fun spec hin => (by cases hin), nodup_nil⟩
  | cons entry names ih =>
    unfold listedSpecs
    dsimp only
    by_cases hskip : clean entry = [] ∨ clean entry = ['.'] ∨ seen.contains (clean entry) = true ∨
        (up ++ ['/']) <+: clean entry ∨ isAbs (clean entry) = true
    · rw [if_pos hskip]
      exact ih seen
    · rw [if_neg hskip]
      obtain ⟨_, hname⟩ := kept_name hskip
      obtain ⟨hrest, hnodup⟩ := ih (clean entry :: seen)
      have hlater : ∀ spec ∈ listedSpecs disk (sandboxDir spoolDir k) (clean entry :: seen) names,
          OfSandbox disk (sandboxDir spoolDir k) spec ∧ spec.wireName.toList ∉ seen := fun spec hin =>
        ⟨(hrest spec hin).1, fun hs => (hrest spec hin).2 (mem_cons_of_mem _ hs)⟩
      cases hfile : Tree.fileAt disk (locate (String.ofList (join (sandboxDir spoolDir k).toList (clean entry)))) with
      | none => exact ⟨hlater, hnodup⟩
      | some file =>
        rcases hname with hstays | hup
        · refine ⟨fun spec hin => ?_, nodup_cons.2 ⟨fun hin => ?_, hnodup⟩⟩
          · rcases mem_cons.1 hin with rfl | hin
            · exact ⟨⟨clean entry, file, hstays, hfile, rfl⟩, by rwa [fileSpec, String.toList_ofList]⟩
            · exact hlater spec hin
          · obtain ⟨spec, hspec, hwire⟩ := mem_map.1 hin
            refine (hrest spec hspec).2 ?_
            rw [hwire, fileSpec, String.toList_ofList]
            exact mem_cons_self
        · rw [hup, bucket_not_file hclear] at hfile
          cases hfile

/-- a listed file is sent, unless its name was looked at before -/
theorem mem_listedSpecs {dir : String} {file : File}
    (hkeep : ¬ (clean entry = [] ∨ clean entry = ['.'] ∨ (up ++ ['/']) <+: clean entry ∨ isAbs (clean entry) = true))
    (hfile : Tree.fileAt disk (locate (String.ofList (join dir.toList (clean entry)))) = some file)
    {names seen : List (List Char)}
    (hin : entry ∈ names) (hseen : clean entry ∉ seen) :
    fileSpec dir (clean entry) file ∈ listedSpecs disk dir seen names := by
  induction names generalizing seen with
  | nil => cases hin
  | cons first names ih =>
    unfold listedSpecs
    dsimp only
    simp only [not_or] at hkeep
    by_cases hsame : clean first = clean entry
    · have hskip : ¬ (clean first = [] ∨ clean first = ['.'] ∨ seen.contains (clean first) = true ∨
          (up ++ ['/']) <+: clean first ∨ isAbs (clean first) = true) := by
        rw [hsame, contains_iff_mem]
        simp only [not_or]
        exact ⟨hkeep.1, hkeep.2.1, hseen, hkeep.2.2⟩
      rw [if_neg hskip, hsame, hfile]
      exact mem_cons_self
    · have hrest : entry ∈ names := (mem_cons.1 hin).resolve_left fun he => hsame (by rw [he])
      have hlater : fileSpec dir (clean entry) file ∈ listedSpecs disk dir (clean first :: seen) names := by
        refine ih hrest ?_
        rw [mem_cons, not_or]
        exact ⟨fun he => hsame he.symm, hseen⟩
      split_ifs
      · exact ih hrest hseen
      · cases Tree.fileAt disk (locate (String.ofList (join dir.toList (clean first)))) with
        | none => exact hlater
        | some => exact mem_cons_of_mem _ hlater

/-- the loop reads the same on two disks with the same sandbox -/
theorem listedSpecs_same (h : Tree.Same (locate (sandboxDir spoolDir k)) disk disk') (names seen : List (List Char)) :
    listedSpecs disk (sandboxDir spoolDir k) seen names = listedSpecs disk' (sandboxDir spoolDir k) seen names := by
  induction names generalizing seen with
  | nil => rfl
  | cons entry names ih =>
    unfold listedSpecs
    dsimp only
    by_cases hskip : clean entry = [] ∨ clean entry = ['.'] ∨ seen.contains (clean entry) = true ∨
        (up ++ ['/']) <+: clean entry ∨ isAbs (clean entry) = true
    · rw [if_pos hskip, if_pos hskip]
      exact ih seen
    · have hread : Tree.fileAt disk (locate (String.ofList (join (sandboxDir spoolDir k).toList (clean entry)))) =
          Tree.fileAt disk' (locate (String.ofList (join (sandboxDir spoolDir k).toList (clean entry)))) := by
        rcases (kept_name hskip).2 with hstays | hup
        · exact h.fileAt (hstays.under _) prefix_rfl
        · rw [hup, bucket_not_file h.clear, bucket_not_file h.clear']
      rw [if_neg hskip, if_neg hskip, hread, ih]

end

/-! ## The whole sandbox -/

variable {spec : FileSpec}

theorem walked_eq_some {dir : String} {entry : Sigma fun _ : List Elem => Tree.Node File} :
    walked dir entry = some spec ↔ ∃ rel file, entry = ⟨locate dir ++ rel, .file file⟩ ∧
      spec = fileSpec dir (render false (rel.map Subtype.val)) file := by
  obtain ⟨_, node⟩ := entry
  constructor
  · intro h
    unfold walked at h
    cases node with
    | dir => cases h
    | file file =>
      dsimp only at h
      split_ifs at h with hin
      obtain ⟨rel, rfl⟩ := hin
      rw [drop_left] at h
      exact ⟨rel, file, rfl, (Option.some.inj h).symm⟩
  · rintro ⟨_, _, he, rfl⟩
    cases he
    unfold walked
    dsimp only
    rw [if_pos (prefix_append _ _), drop_left]

theorem mem_walk {disk : Disk} {dir : String} :
    spec ∈ disk.entries.filterMap (walked dir) ↔ ∃ rel file, disk.lookup (locate dir ++ rel) = some (.file file) ∧
      spec = fileSpec dir (render false (rel.map Subtype.val)) file := by
  rw [mem_filterMap]
  constructor
  · rintro ⟨_, hin, hspec⟩
    obtain ⟨rel, file, rfl, rfl⟩ := walked_eq_some.1 hspec
    exact ⟨rel, file, AList.mem_lookup_iff.2 hin, rfl⟩
  · rintro ⟨rel, file, hlook, rfl⟩
    exact ⟨⟨locate dir ++ rel, .file file⟩, AList.mem_lookup_iff.1 hlook, walked_eq_some.2 ⟨rel, file, rfl, rfl⟩⟩

theorem render_injective {rel rel' : List Elem}
    (h : render false (rel.map Subtype.val) = render false (rel'.map Subtype.val)) :
    rel = rel' := by
  have helem := congrArg elements h
  rw [elements_render (rel_names rel), elements_render (rel_names rel')] at helem
  exact map_injective_iff.2 Subtype.val_injective helem

/-- no two files of a walk have one name -/
theorem walk_nodup (disk : Disk) (dir : String) :
    ((disk.entries.filterMap (walked dir)).map FileSpec.wireName).Nodup := by
  have hkeys : disk.entries.Pairwise fun a b => a.1 ≠ b.1 := pairwise_map.1 disk.nodupKeys
  rw [List.Nodup, pairwise_map, pairwise_filterMap]
  refine hkeys.imp fun {a b} hne spec hspec spec' hspec' hwire => hne ?_
  obtain ⟨_, _, rfl, rfl⟩ := walked_eq_some.1 hspec
  obtain ⟨_, _, rfl, rfl⟩ := walked_eq_some.1 hspec'
  rw [render_injective (String.ofList_injective hwire)]

/-- sorting by distinct names does not depend on the order before -/
theorem sorted_unique {specs specs' : List FileSpec} (hnodup : (specs.map FileSpec.wireName).Nodup)
    (hnodup' : (specs'.map FileSpec.wireName).Nodup) (hmem : ∀ spec, spec ∈ specs ↔ spec ∈ specs') :
    (specs.mergeSort fun a b => a.wireName ≤ b.wireName) = specs'.mergeSort fun a b => a.wireName ≤ b.wireName := by
  have htrans : ∀ a b c : FileSpec, decide (a.wireName ≤ b.wireName) = true → decide (b.wireName ≤ c.wireName) = true →
      decide (a.wireName ≤ c.wireName) = true := fun a b c hab hbc =>
    decide_eq_true (String.le_trans (of_decide_eq_true hab) (of_decide_eq_true hbc))
  have htotal : ∀ a b : FileSpec, (decide (a.wireName ≤ b.wireName) || decide (b.wireName ≤ a.wireName)) = true := by
    intro a b
    rw [Bool.or_eq_true, decide_eq_true_eq, decide_eq_true_eq]
    exact String.le_total _ _
  have hperm : specs.Perm specs' := (perm_ext_iff_of_nodup hnodup.of_map hnodup'.of_map).2 hmem
  refine List.Perm.eq_of_pairwise (fun a b ha hb hab hba => ?_) (pairwise_mergeSort htrans htotal specs)
    (pairwise_mergeSort htrans htotal specs')
    (((mergeSort_perm specs _).trans hperm).trans (mergeSort_perm specs' _).symm)
  have ha' : a ∈ specs := mem_mergeSort.1 ha
  have hb' : b ∈ specs := (hmem b).2 (mem_mergeSort.1 hb)
  exact inj_on_of_nodup_map hnodup ha' hb' (String.le_antisymm (of_decide_eq_true hab) (of_decide_eq_true hba))

theorem mem_collectSandbox {disk : Disk} {dir : String} (h : spec ∈ collectSandbox disk dir) :
    ∃ rel file, disk.lookup (locate dir ++ rel) = some (.file file) ∧
      spec = fileSpec dir (render false (rel.map Subtype.val)) file := by
  unfold collectSandbox at h
  cases hdir : disk.lookup (locate dir) with
  | none => rw [hdir] at h; cases h
  | some =>
    rw [hdir] at h
    exact mem_walk.1 (mem_mergeSort.1 h)

theorem collectSandbox_spec (disk : Disk) (dir : String) :
    (∀ spec ∈ collectSandbox disk dir, OfSandbox disk dir spec) ∧
    ((collectSandbox disk dir).map FileSpec.wireName).Nodup := by
  constructor
  · intro spec hin
    obtain ⟨rel, file, hlook, rfl⟩ := mem_collectSandbox hin
    refine ⟨_, file, stays_render (rel_names rel), ?_, rfl⟩
    rw [locate_join_render, Tree.fileAt, hlook]
  · unfold collectSandbox
    cases disk.lookup (locate dir) with
    | none => exact nodup_nil
    | some => exact (((mergeSort_perm _ _).map FileSpec.wireName).nodup_iff).2 (walk_nodup disk dir)

theorem collectSandbox_same {disk disk' : Disk} {dir : String} (h : Tree.Same (locate dir) disk disk') :
    collectSandbox disk dir = collectSandbox disk' dir := by
  unfold collectSandbox
  rw [h.below (locate dir) prefix_rfl]
  cases disk'.lookup (locate dir) with
  | none => rfl
  | some =>
    refine sorted_unique (walk_nodup disk dir) (walk_nodup disk' dir) fun spec => ?_
    rw [mem_walk, mem_walk]
    simp only [h.below _ (prefix_append (locate dir) _)]

/-! ## The output of one job -/

theorem outputSpecs_spec {spoolDir : String} {k : JobKey} {disk : Disk}
    (hclear : Tree.Clear (locate (sandboxDir spoolDir k)) disk)
    (ad : Ad E) :
    (∀ spec ∈ (outputSpecs disk ad (sandboxDir spoolDir k)).1, OfSandbox disk (sandboxDir spoolDir k) spec) ∧
      ((outputSpecs disk ad (sandboxDir spoolDir k)).1.map FileSpec.wireName).Nodup := by
  unfold outputSpecs
  dsimp only
  cases outputList ad with
  | none => exact collectSandbox_spec disk _
  | some names =>
    obtain ⟨hmem, hnodup⟩ := listedSpecs_spec hclear (names ++ rideAlong ad) []
    exact ⟨fun spec hin => (hmem spec hin).1, hnodup⟩

theorem outputSpecs_same {spoolDir : String} {k : JobKey} {disk disk' : Disk}
    (h : Tree.Same (locate (sandboxDir spoolDir k)) disk disk') (ad : Ad E) :
    outputSpecs disk ad (sandboxDir spoolDir k) = outputSpecs disk' ad (sandboxDir spoolDir k) := by
  unfold outputSpecs
  cases outputList ad with
  | none => rw [collectSandbox_same h]
  | some =>
    dsimp only
    rw [listedSpecs_same h]

/-- **Output is isolated.** Whatever transfers are under way and in whatever order their calls come, what a download of
job `k` would send, and what it would read there, is what it would be had nothing happened but the operations on `k`. -/
theorem outputs_isolated (spoolDir : String) {disk : Disk} (hroomy : Roomy spoolDir disk) (k : JobKey) (ops : List Op)
    (ad : Ad E) :
    outputSpecs (performAll E spoolDir disk ops) ad (sandboxDir spoolDir k) =
        outputSpecs (performAll E spoolDir disk (ops.filter fun op => op.job = some k)) ad (sandboxDir spoolDir k) ∧
      ∀ spec ∈ (outputSpecs (performAll E spoolDir disk ops) ad (sandboxDir spoolDir k)).1,
        Tree.fileAt (performAll E spoolDir disk ops) (locate spec.source) =
          Tree.fileAt (performAll E spoolDir disk (ops.filter fun op => op.job = some k)) (locate spec.source) := by
  have hsame : Tree.Same (locate (sandboxDir spoolDir k)) (performAll E spoolDir disk ops) _ :=
    performAll_isolated hroomy k ops
  refine ⟨outputSpecs_same hsame ad, fun spec hin => ?_⟩
  obtain ⟨_, _, hstays, -, rfl⟩ := (outputSpecs_spec hsame.clear ad).1 spec hin
  exact hsame.fileAt (hstays.under _) prefix_rfl

theorem roomy_empty (spoolDir : String) : Roomy spoolDir ∅ := fun _ _ _ _ => rfl

/-- the uploads of two jobs that share a bucket, under one name -/
def neighbours : List Op := [.file (.upload ⟨1, 0⟩) "a" 0 [1], .file (.upload ⟨1, 1⟩) "./a" 0 [2]]

/-- alice's job, done, with its output list -/
def doneAd : Ad Value :=
  ((((Ad.empty.setInt .clusterId 1).setInt .procId 0).setStr .user "alice@pool").setStr .owner "alice").setStr
    .spooledOutputFiles
    "a"

theorem neighbours_output :
    (outputSpecs (performAll Value "/s" ∅ neighbours) doneAd (sandboxDir "/s" ⟨1, 0⟩)).1.map (fun spec =>
      (spec.wireName, spec.size)) =
        [("a", 1)] ∧
      outputSpecs (performAll Value "/s" ∅ neighbours) doneAd (sandboxDir "/s" ⟨1, 0⟩) =
        outputSpecs (performAll Value "/s" ∅ (neighbours.filter fun op => op.job = some ⟨1, 0⟩)) doneAd
          (sandboxDir "/s" ⟨1, 0⟩) := by
  have hsame := (outputs_isolated "/s" (roomy_empty _) ⟨1, 0⟩ neighbours doneAd).1
  refine ⟨?_, hsame⟩
  rw [hsame]
  decide +kernel

section

variable {spoolDir : String} {disk : Disk} {via : Receiver} {name path : String} {mode : ℤ} {bytes : List UInt8}
  {after : List Op}

/-- a stored file stays where it is, and its sandbox with it, until an operation writes to the same place -/
theorem stored_stays (hdest : via.dest E spoolDir name = .ok path)
    (hstored : (Tree.store disk (locate path) (received mode bytes)).isSome)
    (hafter : ∀ op ∈ after, op.target E spoolDir ≠ some (locate path)) :
    Tree.fileAt (performAll E spoolDir disk (.file via name mode bytes :: after)) (locate path) =
        some (received mode bytes (Tree.fileAt disk (locate path))) ∧
      ((performAll E spoolDir disk (.file via name mode bytes :: after)).lookup
        (locate (sandboxDir spoolDir via.job))).isSome := by
  obtain ⟨stored, hstored⟩ := Option.isSome_iff_exists.1 hstored
  have hstep : perform E spoolDir disk (.file via name mode bytes) = stored := by
    simp only [perform, hdest, hstored, Option.getD_some]
  have hbase : (stored.lookup (locate (sandboxDir spoolDir via.job))).isSome := by
    refine Tree.store_way hstored (fun hnil => ?_) (Receiver.dest_under hdest)
    have hplaces := congrArg (map Subtype.val) hnil
    rw [locate_val, sandboxDir_places] at hplaces
    exact absurd (append_eq_nil_iff.1 hplaces).2 (cons_ne_nil _ _)
  have hrun : performAll E spoolDir disk (.file via name mode bytes :: after) = performAll E spoolDir stored after := by
    rw [performAll, foldl_cons, hstep]
    rfl
  rw [hrun]
  exact performAll_keeps (Tree.store_stores hstored) hbase hafter

end

variable {dir refusal name path : String}

/-- a walk over a sandbox meets every file in it, under the name that leads there -/
theorem mem_collectSandbox_of_file {disk : Disk} {file : File}
    (hdest : guardedDest E refusal dir name = .ok path) (hfile : Tree.fileAt disk (locate path) = some file)
    (hdir : (disk.lookup (locate dir)).isSome) : fileSpec dir (clean name.toList) file ∈ collectSandbox disk dir := by
  obtain ⟨hrelative, hup, helem⟩ := guardedDest_elements hdest
  obtain ⟨rel, hrel⟩ : locate dir <+: locate path := by
    rw [locate_under, places_append helem hup]
    exact prefix_append _ _
  -- the rest of the location is what the walk makes the name of
  have hnames : rel.map Subtype.val = elements name.toList := by
    have hval := congrArg (map Subtype.val) hrel
    rw [map_append, locate_val, locate_val, places_append helem hup] at hval
    exact append_cancel_left hval
  obtain ⟨_, hnode⟩ := Option.isSome_iff_exists.1 hdir
  unfold collectSandbox
  rw [hnode]
  refine mem_mergeSort.2 (mem_walk.2 ⟨rel, file, ?_, ?_⟩)
  · rw [hrel]
    exact Tree.lookup_of_fileAt hfile
  · rw [hnames, clean, hrelative]

/-- the source of a file that was received under a name is where it was stored -/
theorem fileSpec_source (hdest : guardedDest E refusal dir name = .ok path) (file : File) :
    (fileSpec dir (clean name.toList) file).source = path := by
  unfold guardedDest at hdest
  dsimp only at hdest
  split_ifs at hdest
  exact Except.ok.inj hdest

/-- a file of a sandbox is sent when the ad lists it or has no list -/
theorem mem_outputSpecs {disk : Disk} {file : File}
    (hdest : guardedDest E refusal dir name = .ok path) (hdot : clean name.toList ≠ ['.'])
    (hfile : Tree.fileAt disk (locate path) = some file) (hdir : (disk.lookup (locate dir)).isSome) {ad : Ad E}
    (hlist : ∀ names, outputList ad = some names → name.toList ∈ names ++ rideAlong ad) :
    fileSpec dir (clean name.toList) file ∈ (outputSpecs disk ad dir).1 := by
  unfold outputSpecs
  dsimp only
  cases hout : outputList ad with
  | none => exact mem_collectSandbox_of_file hdest hfile hdir
  | some names =>
    have hsource := fileSpec_source hdest file
    have hfile' : Tree.fileAt disk (locate (String.ofList (join dir.toList (clean name.toList)))) = some file := by
      rw [← hsource] at hfile
      exact hfile
    unfold guardedDest at hdest
    dsimp only at hdest
    split_ifs at hdest with hguard
    simp only [not_or] at hguard
    refine mem_listedSpecs ?_ hfile' (hlist names hout) (not_mem_nil)
    simp only [not_or]
    exact ⟨clean_ne_nil _, hdot, hguard.2.2, hguard.1⟩

/-- **A file comes back.** Once an upload has stored a file, the whole sandbox has it, under its cleaned name and with
its bytes, until an operation writes to the same place. -/
theorem upload_comes_back (spoolDir : String) (disk : Disk) (k : JobKey) (name path : String) (mode : ℤ)
    (bytes : List UInt8)
    (after : List Op) (hdest : DirSink.dest E ⟨sandboxDir spoolDir k⟩ name = .ok path)
    (hstored : (Tree.store disk (locate path) (received mode bytes)).isSome)
    (hafter : ∀ op ∈ after, op.target E spoolDir ≠ some (locate path)) :
    ∃ spec ∈ collectSandbox (performAll E spoolDir disk (.file (.upload k) name mode bytes :: after))
      (sandboxDir spoolDir k), spec.wireName = String.ofList (clean name.toList) ∧ spec.size = bytes.length ∧
        (Tree.fileAt (performAll E spoolDir disk (.file (.upload k) name mode bytes :: after)) (locate spec.source)).map
          File.bytes = some bytes := by
  have hvia : Receiver.dest E spoolDir (.upload k) name = .ok path := hdest
  obtain ⟨hfile, hdir⟩ := stored_stays hvia hstored hafter
  refine ⟨_, mem_collectSandbox_of_file hdest hfile hdir, rfl, congrArg length (received_bytes mode bytes _), ?_⟩
  rw [fileSpec_source hdest, hfile, Option.map_some, received_bytes]

theorem neighbour_file_back :
    ∃ spec ∈ collectSandbox (performAll Value "/s" ∅ (.file (.upload ⟨1, 0⟩) "b/../a" 0 [1] :: neighbours.drop 1))
        (sandboxDir "/s" ⟨1, 0⟩),
      spec.wireName = "a" ∧ spec.size = 1 := by
  obtain ⟨spec, hin, hwire, hsize, -⟩ := upload_comes_back (E := Value) "/s" ∅ ⟨1, 0⟩ "b/../a"
    "/s/1/0/cluster1.proc0.subproc0/a" 0 [1] (neighbours.drop 1) (by decide +kernel) (by decide +kernel)
      (by decide +kernel)
  exact ⟨spec, hin, hwire.trans (by decide +kernel), hsize⟩

/-! ## The jobs of a download -/

/-- the first ad of each job; an ad without its ids is passed over -/
def firstOfEach : List JobKey → List (Ad E) → List (Ad E)
  | _, [] => []
  | seen, ad :: rest =>
    match Txn.jobIDs ad with
    | none => firstOfEach seen rest
    | some k => if seen.contains k then firstOfEach seen rest else ad :: firstOfEach (k :: seen) rest

/-- `SpoolQuery`: the queue first, then the history; `query` is `vm.Parse` -/
def spoolQuery (q : Queue E) (query : String → Except String (Ad E → Bool)) (constraint : String) :
    Except String (List (Ad E)) :=
  match query constraint with
  | .error err => .error err
  | .ok p => .ok (firstOfEach [] (q.coll.scan.filter p ++ q.hist.filter p))

/-- `jobIDsOf` -/
def jobIDsOf (ad : Ad E) : JobKey := (Txn.jobIDs ad).getD ⟨0, 0⟩

/-- what goes out for one job -/
structure Sent (E : Type) where
  ad : Ad E
  specs : List FileSpec
  size : ℕ

/-- `sendSandbox` -/
def sendSandbox (spoolDir : String) (disk : Disk) (ad : Ad E) (k : JobKey) : Except String (Sent E) :=
  match jobAccount ad with
  | .error err => .error err
  | .ok _ =>
    let out := outputSpecs disk ad (sandboxDir spoolDir k)
    .ok ⟨ad, out.1, out.2⟩

/-- one job after the other, up to the first error; `disk k` is the disk when the turn of job `k` comes -/
def sendAll (spoolDir : String) (disk : JobKey → Disk) : List (Ad E) → Except String (List (Sent E))
  | [] => .ok []
  | ad :: rest =>
    let k := jobIDsOf ad
    match sendSandbox spoolDir (disk k) ad k with
    | .error err => .error ("send sandbox for " ++ k.text ++ ": " ++ err)
    | .ok sent => (sendAll spoolDir disk rest).map (sent :: ·)

/-- the jobs of a download: those of the caller whose owner is a local account -/
def ownedAds (q : Queue E) (authUser : String) (ads : List (Ad E)) : List (Ad E) :=
  ads.filter fun ad => q.ownsJobAd authUser ad && (jobAccount ad).isOk

/-- `doTransfer` -/
def doTransfer (q : Queue E) (query : String → Except String (Ad E → Bool)) (spoolDir : String) (disk : JobKey → Disk)
    (authUser constraint : String) : Except String (List (Sent E)) :=
  match spoolQuery q query constraint with
  | .error err => .error ("parse/evaluate constraint " ++ quote E constraint ++ ": " ++ err)
  | .ok ads => sendAll spoolDir disk (ownedAds q authUser ads)

theorem firstOfEach_spec (ads : List (Ad E)) (seen : List JobKey) :
    (∀ ad ∈ firstOfEach seen ads, ∃ k, Txn.jobIDs ad = some k ∧ k ∉ seen) ∧
    ((firstOfEach seen ads).map jobIDsOf).Nodup := by
  induction ads generalizing seen with
  | nil => exact ⟨fun ad hin => (by cases hin), nodup_nil⟩
  | cons ad ads ih =>
    unfold firstOfEach
    cases hids : Txn.jobIDs ad with
    | none => exact ih seen
    | some k =>
      dsimp only
      by_cases hseen : seen.contains k = true
      · rw [if_pos hseen]
        exact ih seen
      · rw [if_neg hseen]
        rw [contains_iff_mem] at hseen
        obtain ⟨hmem, hnodup⟩ := ih (k :: seen)
        refine ⟨fun ad' hin => ?_, nodup_cons.2 ⟨fun hin => ?_, hnodup⟩⟩
        · rcases mem_cons.1 hin with rfl | hin
          · exact ⟨k, hids, hseen⟩
          · obtain ⟨k', hk', hnot⟩ := hmem ad' hin
            exact ⟨k', hk', fun hs => hnot (mem_cons_of_mem k hs)⟩
        · obtain ⟨ad', hin', hsame⟩ := mem_map.1 hin
          obtain ⟨_, hk', hnot⟩ := hmem ad' hin'
          rw [jobIDsOf, jobIDsOf, hk', hids, Option.getD_some, Option.getD_some] at hsame
          exact hnot (hsame ▸ mem_cons_self)

theorem sendAll_spec {spoolDir : String} {disk : JobKey → Disk} {ads : List (Ad E)} {sent : List (Sent E)}
    (h : sendAll spoolDir disk ads = .ok sent) :
    sent.map Sent.ad = ads ∧ ∀ x ∈ sent, outputSpecs (disk (jobIDsOf x.ad)) x.ad (sandboxDir spoolDir (jobIDsOf x.ad)) =
      (x.specs, x.size) := by
  induction ads generalizing sent with
  | nil =>
    obtain rfl := Except.ok.inj h
    exact ⟨rfl, fun x hin => (by cases hin)⟩
  | cons ad ads ih =>
    unfold sendAll sendSandbox at h
    cases hacc : jobAccount ad with
    | error => simp only [hacc] at h; cases h
    | ok =>
      simp only [hacc] at h
      cases hrest : sendAll spoolDir disk ads with
      | error => rw [hrest] at h; cases h
      | ok =>
        rw [hrest] at h
        obtain rfl := Except.ok.inj h
        obtain ⟨hads, hspecs⟩ := ih hrest
        refine ⟨by rw [map_cons, hads], fun x hin => ?_⟩
        rcases mem_cons.1 hin with rfl | hin
        · rfl
        · exact hspecs x hin

/-- **A download sends the caller's own files.** Of what `doTransfer` sends, every job is sent once, is the caller's (or
the caller is a super user) and has a local account. Every file sent for it is a regular file of its sandbox, in the
sandbox of no other job and no file of a factory; its name is sent once, and any sink that is given the name takes it,
the upload of the job itself to the very place the file is read from. -/
theorem transfer_sends_own {q : Queue E} {query : String → Except String (Ad E → Bool)} {spoolDir : String}
    {disk : JobKey → Disk}
    {authUser constraint : String} {sent : List (Sent E)} (hroomy : ∀ k, Roomy spoolDir (disk k))
    (h : doTransfer q query spoolDir disk authUser constraint = .ok sent) :
    (sent.map fun x => jobIDsOf x.ad).Nodup ∧ ∀ x ∈ sent, q.ownsJobAd authUser x.ad = true ∧
    (jobAccount x.ad).isOk = true ∧
      (x.specs.map FileSpec.wireName).Nodup ∧ x.size = (x.specs.map FileSpec.size).sum ∧ ∀ spec ∈ x.specs,
        (∃ file, Tree.fileAt (disk (jobIDsOf x.ad)) (locate spec.source) = some file ∧ spec.mode = file.perm ∧
          spec.size = file.bytes.length) ∧
        (∀ k, locate (sandboxDir spoolDir k) <+: locate spec.source ↔ k = jobIDsOf x.ad) ∧
        (∀ c, locate spec.source ≠ locate (spooledDigestPath spoolDir c) ∧
          locate spec.source ≠ locate (spooledItemsPath spoolDir c)) ∧
        DirSink.dest E ⟨sandboxDir spoolDir (jobIDsOf x.ad)⟩ spec.wireName = .ok spec.source ∧
        ∀ root, ∃ path, DirSink.dest E ⟨root⟩ spec.wireName = .ok path := by
  unfold doTransfer spoolQuery at h
  cases hquery : query constraint with
  | error => rw [hquery] at h; cases h
  | ok p =>
    rw [hquery] at h
    dsimp only at h
    obtain ⟨hads, hspecs⟩ := sendAll_spec h
    obtain ⟨-, hnodup⟩ := firstOfEach_spec (q.coll.scan.filter p ++ q.hist.filter p) []
    refine ⟨?_, fun x hin => ?_⟩
    · have hmap : (sent.map fun x => jobIDsOf x.ad) = (sent.map Sent.ad).map jobIDsOf := by
        rw [map_map]
        rfl
      rw [hmap, hads]
      exact (filter_sublist.map jobIDsOf).nodup hnodup
    · have hmem : x.ad ∈ ownedAds q authUser _ := hads ▸ mem_map_of_mem hin
      obtain ⟨howns, hacc⟩ := Bool.and_eq_true_iff.1 (mem_filter.1 hmem).2
      have hout := hspecs x hin
      obtain ⟨hof, hwires⟩ := outputSpecs_spec (hroomy (jobIDsOf x.ad) (jobIDsOf x.ad)) x.ad
      have hsize : (outputSpecs (disk (jobIDsOf x.ad)) x.ad (sandboxDir spoolDir (jobIDsOf x.ad))).2 =
          ((outputSpecs (disk (jobIDsOf x.ad)) x.ad (sandboxDir spoolDir (jobIDsOf x.ad))).1.map FileSpec.size).sum :=
            rfl
      rw [hout] at hof hwires hsize
      refine ⟨howns, hacc, hwires, hsize, fun spec hspec => ?_⟩
      obtain ⟨_, file, hstays, hfile, rfl⟩ := hof spec hspec
      have hin' := hstays.under (sandboxDir spoolDir (jobIDsOf x.ad))
      refine ⟨⟨file, hfile, rfl, rfl⟩, fun k => ⟨fun hk => sandboxes_apart hk hin', fun hk => ?_⟩, fun c =>
        ⟨fun he => ?_, fun he => ?_⟩, hstays.dest _, fun root => ⟨_, hstays.dest root⟩⟩
      · rw [hk]
        exact hin'
      · apply (spooledDigestPath_apart spoolDir (jobIDsOf x.ad) c).1
        rw [← he]
        exact hin'
      · apply (spooledItemsPath_apart spoolDir (jobIDsOf x.ad) c).1
        rw [← he]
        exact hin'

/-- alice's job in the history -/
def doneQueue : Queue Value := { aliceQueue with coll := ∅, hist := [doneAd] }

theorem alice_downloads :
    ∃ sent, doTransfer doneQueue (fun _ => .ok fun _ => true) "/s" (fun _ =>
      performAll Value "/s" ∅ (neighbours.take 1)) "alice@pool" "true" =
        .ok sent ∧
      sent.map (fun x => (jobIDsOf x.ad, x.specs.map FileSpec.wireName)) = [(⟨1, 0⟩, ["a"])] ∧
      ∀ x ∈ sent, ∀ spec ∈ x.specs, ∀ k, locate (sandboxDir "/s" k) <+: locate spec.source ↔ k = jobIDsOf x.ad := by
  have hout : (doTransfer doneQueue (fun _ => .ok fun _ => true) "/s" (fun _ =>
    performAll Value "/s" ∅ (neighbours.take 1)) "alice@pool"
      "true").toOption.map (map fun x => (jobIDsOf x.ad, x.specs.map FileSpec.wireName)) =
        some [(⟨1, 0⟩, ["a"])] := by
    decide +kernel
  cases hsent : doTransfer doneQueue (fun _ => .ok fun _ => true) "/s" (fun _ =>
    performAll Value "/s" ∅ (neighbours.take 1)) "alice@pool"
      "true" with
  | error => rw [hsent] at hout; cases hout
  | ok sent =>
    rw [hsent] at hout
    refine ⟨sent, rfl, Option.some.inj hout, fun x hin spec hspec => ?_⟩
    exact (((transfer_sends_own (fun _ => performAll_roomy (roomy_empty _) _) hsent).2 x hin).2.2.2.2 spec hspec).2.1

end Spool

end AccessPoint
