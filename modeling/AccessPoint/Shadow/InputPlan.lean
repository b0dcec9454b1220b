/-
The input files a shadow sends (shadow/transfer.go, `buildInputPlan` and `resolveAgainst`), and the whole way of the
input of a spooled job: the client uploads its files by their last path elements, the end of the upload rewrites the ad
(internal/spool/spool.go, `finishSpool`), and the shadow makes its plan of the rewritten ad.

- `buildInputPlan`: the executable and the listed files, each under its last path element; a file that is not there is
  an error.
- `spooled_plan`: the plan of a spooled job is made of the files of its upload, and of nothing outside its sandbox.
-/
import AccessPoint.Spool.Output

namespace AccessPoint

open ClassAdLib Text AccessPoint.Path Spool List

variable {E : Type} [ClassAdLib E]

namespace Shadow

/-- `resolveAgainst` -/
def resolveAgainst (base p : List Char) : List Char := if isAbs p ∨ base = [] then p else join base p

/-- `os.Stat`: permissions and size; the size of a directory is up to the file system -/
def stat (dirSize : ℕ) (disk : Spool.Disk) (path : List Char) : Option (ℤ × ℕ) :=
  let loc := locate (String.ofList path)
  match Tree.fileAt disk loc with
  | some file => some (file.perm, file.bytes.length)
  | none => if Tree.isDir disk loc then some (493, dirSize) else none

/-- what `buildInputPlan` adds, in order: the name on the wire and the source -/
def inputEntries (ad : Ad E) : List (List Char × List Char) :=
  let iwd := ((ad.evaluateAttrString .iwd).getD "").toList
  let cmd := ((ad.evaluateAttrString .cmd).getD "").toList
  let list := (ad.evaluateAttrString .transferInput).getD ""
  (if transferExecutable ad ∧ cmd ≠ [] then [(pathBase cmd, resolveAgainst iwd cmd)] else []) ++
    (splitFileList list).map fun f => (pathBase f, resolveAgainst iwd f)

/-- the calls of `add`, up to the first error; `seen` are the names already planned -/
def addInputs (E : Type) [ClassAdLib E] (dirSize : ℕ) (disk : Spool.Disk) :
    List (List Char) → List (List Char × List Char) → Except String (List FileSpec)
  | _, [] => .ok []
  | seen, (wire, source) :: rest =>
    if wire = [] ∨ seen.contains wire then addInputs E dirSize disk seen rest
    else
      match stat dirSize disk source with
      | none =>
        .error ("shadow: input file " ++ quote E (String.ofList source) ++ ": stat " ++ String.ofList source ++
          ": no such file or directory")
      | some (mode, size) =>
        (addInputs E dirSize disk (wire :: seen) rest).map (⟨String.ofList wire, mode, size, String.ofList source⟩ :: ·)

/-- `buildInputPlan` -/
def buildInputPlan (dirSize : ℕ) (disk : Spool.Disk) (ad : Ad E) : Except String (List FileSpec) :=
  match jobAccount ad with
  | .error err => .error ("shadow: " ++ err)
  | .ok _ => addInputs E dirSize disk [] (inputEntries ad)

/-! ## Names in a directory -/

theorem pathBase_name {name : List Char} (h : Name name) : pathBase name = name := by
  obtain ⟨⟨hnil, -, hslash⟩, -⟩ := h
  have hkept : ∀ c ∈ name, decide (c ≠ '/') = true := fun c hc => decide_eq_true fun he => hslash (he ▸ hc)
  have htrim : trimRight (· = '/') name = name := by
    unfold trimRight
    rw [dropWhile_eq_self_iff.2, reverse_reverse]
    intro hlen
    have hlast : name.reverse[0] ∈ name := mem_reverse.1 (getElem_mem hlen)
    simpa using of_decide_eq_true (hkept _ hlast)
  have hlast : (name.reverse.takeWhile (· ≠ '/')).reverse = name := by
    rw [takeWhile_eq_self_iff.2 fun c hc => hkept c (mem_reverse.1 hc), reverse_reverse]
  unfold pathBase
  dsimp only
  rw [if_neg hnil, htrim, hlast, if_neg hnil]

theorem stays_name {name : List Char} (h : Name name) : Stays name := by
  have hall : ∀ n ∈ [name], Name n := by simpa using h
  exact stays_render hall

theorem resolveAgainst_name {dir name : List Char} (hdir : dir ≠ []) (h : Name name) :
    resolveAgainst dir name = join dir name := by
  have hrel : ¬ (isAbs name = true ∨ dir = []) := not_or.2 ⟨Bool.eq_false_iff.1 (stays_name h).relative, hdir⟩
  rw [resolveAgainst, if_neg hrel]

/-- the calls of `add` for names of one directory -/
def named (dir : List Char) (names : List (List Char)) : List (List Char × List Char) :=
  names.map fun name => (name, join dir name)

theorem addInputs_named {dirSize : ℕ} {disk : Spool.Disk} {dir : List Char} {names seen : List (List Char)}
    {specs : List FileSpec}
    (hnames : ∀ name ∈ names, Name name) (h : addInputs E dirSize disk seen (named dir names) = .ok specs) :
    (specs.map FileSpec.wireName).Nodup ∧
      (∀ wire, wire ∈ specs.map FileSpec.wireName ↔ wire.toList ∈ names ∧ wire.toList ∉ seen) ∧
      ∀ spec ∈ specs, spec.source = String.ofList (join dir spec.wireName.toList) ∧
        stat dirSize disk spec.source.toList = some (spec.mode, spec.size) := by
  induction names generalizing seen specs with
  | nil =>
    obtain rfl := Except.ok.inj h
    exact ⟨nodup_nil, fun wire => by simp, fun spec hin => (by cases hin)⟩
  | cons name names ih =>
    have hname := hnames name mem_cons_self
    have hrest : ∀ n ∈ names, Name n := fun n hn => hnames n (mem_cons_of_mem name hn)
    unfold named at h
    rw [map_cons] at h
    unfold addInputs at h
    by_cases hskip : name = [] ∨ seen.contains name = true
    · have hseen : name ∈ seen := contains_iff_mem.1 (hskip.resolve_left hname.1.1)
      rw [if_pos hskip] at h
      obtain ⟨hnodup, hwires, hspecs⟩ := ih hrest h
      refine ⟨hnodup, fun wire => ?_, hspecs⟩
      rw [hwires, mem_cons]
      constructor
      · exact fun hw => ⟨.inr hw.1, hw.2⟩
      · exact fun hw => ⟨hw.1.resolve_left fun he => hw.2 (he ▸ hseen), hw.2⟩
    · rw [if_neg hskip] at h
      have hseen : name ∉ seen := fun hin => hskip (.inr (contains_iff_mem.2 hin))
      cases hstat : stat dirSize disk (join dir name) with
      | none => rw [hstat] at h; cases h
      | some =>
        rw [hstat] at h
        dsimp only at h
        cases hadd : addInputs E dirSize disk (name :: seen) (names.map fun n => (n, join dir n)) with
        | error => rw [hadd] at h; cases h
        | ok =>
          rw [hadd] at h
          obtain rfl := Except.ok.inj h
          obtain ⟨hnodup, hwires, hspecs⟩ := ih hrest hadd
          refine ⟨?_, fun wire => ?_, fun spec hin => ?_⟩
          · rw [map_cons, nodup_cons]
            refine ⟨fun hin => ((hwires _).1 hin).2 ?_, hnodup⟩
            rw [String.toList_ofList]
            exact mem_cons_self
          · rw [map_cons, mem_cons, hwires, mem_cons, mem_cons]
            constructor
            · rintro (rfl | hw)
              · rw [String.toList_ofList]
                exact ⟨.inl rfl, hseen⟩
              · exact ⟨.inr hw.1, fun hin => hw.2 (.inr hin)⟩
            · rintro ⟨hin, hnot⟩
              by_cases he : wire.toList = name
              · left
                rw [← he, String.ofList_toList]
              · exact .inr ⟨hin.resolve_left he, fun h => h.elim he hnot⟩
          · rcases mem_cons.1 hin with rfl | hin
            · simp only [String.toList_ofList]
              exact ⟨trivial, hstat⟩
            · exact hspecs spec hin

/-- the plan is made when every file is there -/
theorem addInputs_isOk {dirSize : ℕ} {disk : Spool.Disk} {dir : List Char} {names : List (List Char)}
    (seen : List (List Char))
    (hthere : ∀ name ∈ names, (stat dirSize disk (join dir name)).isSome) :
    ∃ specs, addInputs E dirSize disk seen (named dir names) = .ok specs := by
  induction names generalizing seen with
  | nil => exact ⟨[], rfl⟩
  | cons name names ih =>
    have hrest := fun seen => ih seen fun n hn => hthere n (mem_cons_of_mem name hn)
    unfold named
    rw [map_cons]
    unfold addInputs
    split_ifs
    · exact hrest seen
    · obtain ⟨_, hinfo⟩ := Option.isSome_iff_exists.1 (hthere name mem_cons_self)
      obtain ⟨_, hspecs⟩ := hrest (name :: seen)
      unfold named at hspecs
      rw [hinfo]
      dsimp only
      rw [hspecs]
      exact ⟨_, rfl⟩

end Shadow

/-! ## The ad after the upload -/

namespace Spool

open Shadow

/-- the ad the end of an upload leaves -/
def finishedAd (dir : String) (now : ℤ) (ad : Ad E) : Ad E := releaseSpoolHold (uploadedAd dir now ad) now

/-- a job as it is submitted for spooling: its executable is to be transferred, and what the transfer reads are literals
-/
structure Submitted (ad : Ad E) (user owner cmd list : String) : Prop where
  fresh : ad .submitIwd = none
  executable : ad .transferExecutable = none
  user : ad .user = some (lit (.str user))
  owner : ad .owner = some (lit (.str owner))
  cmd : ad .cmd = some (lit (.str cmd))
  list : ad .transferInput = some (lit (.str list))

/-- the names under which the client uploads the executable and the input files -/
def uploadNames (cmd list : String) : List (List Char) := pathBase cmd.toList :: (splitFileList list).map pathBase

variable {user owner cmd list : String}

theorem Submitted.butFor {ad ad' : Ad E} (h : Submitted ad user owner cmd list) {S : List Attr}
    (hframe : ad.ButFor S ad')
    (hS : ∀ a ∈ [Attr.submitIwd, .transferExecutable, .user, .owner, .cmd, .transferInput], a ∉ S) :
    Submitted ad' user owner cmd list where
  fresh := (hframe _ (hS _ (by decide))).trans h.fresh
  executable := (hframe _ (hS _ (by decide))).trans h.executable
  user := (hframe _ (hS _ (by decide))).trans h.user
  owner := (hframe _ (hS _ (by decide))).trans h.owner
  cmd := (hframe _ (hS _ (by decide))).trans h.cmd
  list := (hframe _ (hS _ (by decide))).trans h.list

variable {ad : Ad E}

theorem rewriteBasename_reads {a backup : Attr} {val : String} (hval : ad a = some (lit (.str val)))
    (hnull : isNullFile E val = false) :
    rewriteBasename ad a backup a = some (lit (.str (String.ofList (pathBase val.toList)))) := by
  have hread : ad.evaluateAttrString a = some val := Ad.evaluateAttrString_lit hval
  have hne : val ≠ "" := by
    intro he
    rw [he] at hnull
    simp [isNullFile] at hnull
  have hkeep : ¬ (val = "" ∨ isNullFile E val = true) := not_or.2 ⟨hne, Bool.eq_false_iff.1 hnull⟩
  simp only [rewriteBasename, hread, if_neg hkeep]
  split_ifs with hsame
  · rw [hsame, hval]
  · rw [Ad.setStr_apply, if_pos rfl]

/-- the executable and the directory of a job the rewrite has placed -/
theorem rewriteSpooledJobAd_places (h : Submitted ad user owner cmd list)
    (hnull : isNullFile E cmd = false) (dir : String) :
    rewriteSpooledJobAd ad dir .iwd = some (lit (.str dir)) ∧
      rewriteSpooledJobAd ad dir .cmd = some (lit (.str (String.ofList (pathBase cmd.toList)))) := by
  let placed := rewriteIwd ad dir
  have hframe : ad.ButFor [.iwd, .submitIwd, .transferOutputRemaps, .submitTransferOutputRemaps] placed :=
    rewriteIwd_butFor (.refl ad) dir (List.Subset.refl _)
  have hiwd : placed .iwd = some (lit (.str dir)) := (rewriteIwd_places ad dir).1
  have hexec : transferExecutable placed = true := by
    have hnone : placed .transferExecutable = none := (hframe _ (by decide)).trans h.executable
    simp [transferExecutable, Ad.evaluateAttrBool, Ad.evaluateAttr, hnone]
  have hcmd : placed .cmd = some (lit (.str cmd)) := (hframe _ (by decide)).trans h.cmd
  -- the later rewrites are about other attributes
  let exe := rewriteBasename placed .cmd .submitCmd
  have hexe : placed.ButFor [.cmd, .submitCmd] exe := rewriteBasename_butFor (.refl _) _ _ (by decide) (by decide)
  let stdin := if (exe.evaluateAttrBool .transferIn).getD true then rewriteBasename exe .inFile .submitIn else exe
  let rest : List Attr := [.inFile, .submitIn, .userLog, .submitUserLog, .transferInput, .submitTransferInput]
  have hstdin : exe.ButFor rest stdin :=
    .branch (rewriteBasename_butFor (.refl _) _ _ (by decide) (by decide)) (.refl _)
  have hall : exe.ButFor rest
    (rewriteBasenameList (rewriteBasename stdin .userLog .submitUserLog) .transferInput .submitTransferInput) :=
    rewriteBasenameList_butFor (rewriteBasename_butFor hstdin _ _ (by decide) (by decide)) _ _ (by decide) (by decide)
  have heq : rewriteSpooledJobAd ad dir =
      rewriteBasenameList (rewriteBasename stdin .userLog .submitUserLog) .transferInput .submitTransferInput := by
    have hnone : ¬ (ad.lookup .submitIwd).isSome := by rw [Ad.lookup_eq, h.fresh]; exact Bool.false_ne_true
    have hexec' : transferExecutable (rewriteIwd ad dir) = true := hexec
    simp only [rewriteSpooledJobAd, if_neg hnone, if_pos hexec']
    rfl
  rw [heq, hall _ (by decide), hall _ (by decide)]
  exact ⟨(hexe _ (by decide)).trans hiwd, rewriteBasename_reads hcmd hnull⟩

/-- the input list of a job the rewrite has placed -/
theorem rewriteSpooledJobAd_list (h : Submitted ad user owner cmd list)
    (hplain : ∀ e ∈ listEntries list, Plain e) (dir : String) :
    ∃ list', rewriteSpooledJobAd ad dir .transferInput = some (lit (.str list')) ∧
      splitFileList list' = (splitFileList list).map entryBase := by
  obtain ⟨pre, hrewrite, hpre, -⟩ := rewriteSpooledJobAd_fresh h.fresh dir
  have hlit : ∃ list', rewriteBasenameList pre .transferInput .submitTransferInput .transferInput =
    some (lit (.str list')) := by
    have hval : pre .transferInput = some (lit (.str list)) := hpre.trans h.list
    simp only [rewriteBasenameList, Ad.evaluateAttrString_lit hval]
    split_ifs
    · exact ⟨list, hval⟩
    · exact ⟨_, by rw [Ad.setStr_apply, if_pos rfl]⟩
  obtain ⟨list', hlist'⟩ := hlit
  obtain ⟨_, hval, hreads, -⟩ := rewriteBasenameList_reads (hpre.trans h.list)
  rw [Ad.evaluateAttrString_lit hlist'] at hval
  have hsame := (reread_iff hreads).2 fun e he => keepsFiles_plain he (hplain e he)
  exact ⟨list', by rw [hrewrite, hlist'], Option.some.inj hval ▸ hsame⟩

/-- what the plan reads of a job after the upload -/
theorem Submitted.entries (h : Submitted ad user owner cmd list)
    (hnull : isNullFile E cmd = false) (hplain : ∀ e ∈ listEntries list, Plain e ∧ isURL e = false)
    (hnames : ∀ name ∈ uploadNames cmd list, Name name) {dir : String} (hdir : dir ≠ "") (now : ℤ) :
    jobAccount (finishedAd dir now ad) = jobAccount ad ∧
      inputEntries (finishedAd dir now ad) = named dir.toList (uploadNames cmd list) := by
  -- the time of the upload and the release are not about files
  let stamped := if (ad.evaluateAttrInt .stageInFinish).getD 0 = 0 then ad.setInt .stageInFinish (now - 1) else ad
  have hstamped : Submitted stamped user owner cmd list :=
    h.butFor (S := [.stageInFinish]) (.branch ((Ad.ButFor.refl ad).setInt _ (by decide)) (.refl ad)) (by decide)
  have hrelease : (rewriteSpooledJobAd stamped dir).ButFor spoolReleaseAttrs (finishedAd dir now ad) :=
    releaseSpoolHold_butFor _ now
  have hall : ad.ButFor (uploadAttrs ++ spoolReleaseAttrs) (finishedAd dir now ad) := by
    intro a ha
    rw [mem_append, not_or] at ha
    rw [hrelease a ha.2]
    exact uploadedAd_butFor dir now ad a ha.1
  obtain ⟨hiwd, hcmd⟩ := rewriteSpooledJobAd_places hstamped hnull dir
  obtain ⟨_, hlist, hreads⟩ := rewriteSpooledJobAd_list hstamped (fun e he => (hplain e he).1) dir
  have hread : ∀ {a : Attr} {v : String}, a ∉ spoolReleaseAttrs →
    rewriteSpooledJobAd stamped dir a = some (lit (.str v)) →
      (finishedAd dir now ad).evaluateAttrString a = some v := fun ha hv =>
    Ad.evaluateAttrString_lit ((hrelease _ ha).trans hv)
  have hexec : transferExecutable (finishedAd dir now ad) = true := by
    have hnone : finishedAd dir now ad .transferExecutable = none := (hall _ (by decide)).trans h.executable
    simp [transferExecutable, Ad.evaluateAttrBool, Ad.evaluateAttr, hnone]
  refine ⟨?_, ?_⟩
  · have huser : finishedAd dir now ad .user = some (lit (.str user)) := (hall _ (by decide)).trans h.user
    have howner : finishedAd dir now ad .owner = some (lit (.str owner)) := (hall _ (by decide)).trans h.owner
    unfold jobAccount
    rw [Ad.evaluateAttrString_lit huser, Ad.evaluateAttrString_lit howner, Ad.evaluateAttrString_lit h.user,
      Ad.evaluateAttrString_lit h.owner]
  · have hbase := hnames _ mem_cons_self
    have hfiles : ∀ e ∈ splitFileList list, Name (pathBase e) := fun e he =>
      hnames _ (mem_cons_of_mem _ (mem_map_of_mem he))
    have hd : dir.toList ≠ [] := fun he => hdir (String.toList_eq_nil_iff.1 he)
    have hplainList := splitFileList_eq fun e he => (hplain e he).1
    unfold inputEntries
    rw [hread (by decide) hiwd, hread (by decide) hcmd, hread (by decide) hlist]
    simp only [Option.getD_some, String.toList_ofList, hexec, true_and]
    rw [if_pos hbase.1.1, pathBase_name hbase, resolveAgainst_name hd hbase, hreads, map_map]
    unfold named uploadNames
    rw [map_cons, map_map, singleton_append]
    refine congrArg _ (map_congr_left fun e he => ?_)
    have hurl : isURL e = false := (hplain e (hplainList ▸ he)).2
    have hentry : entryBase e = pathBase e := by rw [entryBase, if_neg (Bool.eq_false_iff.1 hurl)]
    simp only [Function.comp_apply, hentry, pathBase_name (hfiles e he), resolveAgainst_name hd (hfiles e he)]

theorem sandboxDir_ne (spoolDir : String) (k : JobKey) : sandboxDir spoolDir k ≠ "" := by
  intro he
  have helem := sandboxDir_elements spoolDir k
  rw [he] at helem
  exact absurd (append_eq_nil_iff.1 helem.symm).2 (cons_ne_nil _ _)

/-- **The input of a spooled job is its upload.** Take a job submitted with an executable and an input list of plain
paths, whose last elements are proper names. After the upload the shadow has a plan exactly when there is something in
the sandbox under each of these names. The plan has each of them once, no other, and reads it from where an upload of
that name lands, which is in the sandbox of this job and of no other. -/
theorem spooled_plan {ad : Ad E} {user owner cmd list : String} (h : Submitted ad user owner cmd list)
    (hnull : isNullFile E cmd = false) (hplain : ∀ e ∈ listEntries list, Plain e ∧ isURL e = false)
    (hnames : ∀ name ∈ uploadNames cmd list, Name name) (hacc : (jobAccount ad).isOk = true) (spoolDir : String)
    (k : JobKey)
    (now : ℤ) (dirSize : ℕ) (disk : Spool.Disk) :
    let dir := sandboxDir spoolDir k
    let plan := buildInputPlan dirSize disk (finishedAd dir now ad)
    (plan.isOk = true ↔ ∀ name ∈ uploadNames cmd list, (stat dirSize disk (join dir.toList name)).isSome = true) ∧
      ∀ specs, plan = .ok specs → (specs.map FileSpec.wireName).Nodup ∧
        (∀ wire, wire ∈ specs.map FileSpec.wireName ↔ wire.toList ∈ uploadNames cmd list) ∧
        ∀ spec ∈ specs, DirSink.dest E ⟨dir⟩ spec.wireName = .ok spec.source ∧
          stat dirSize disk spec.source.toList = some (spec.mode, spec.size) ∧
          ∀ k', locate (sandboxDir spoolDir k') <+: locate spec.source ↔ k' = k := by
  intro dir plan
  obtain ⟨haccount, hentries⟩ := h.entries hnull hplain hnames (sandboxDir_ne spoolDir k) now
  have hplan : plan = addInputs E dirSize disk [] (named dir.toList (uploadNames cmd list)) := by
    simp only [plan, buildInputPlan]
    rw [haccount, hentries]
    cases hja : jobAccount ad with
    | error => rw [hja] at hacc; cases hacc
    | ok => rfl
  have hspecs : ∀ specs, plan = .ok specs → _ := fun specs hok => addInputs_named hnames (hplan ▸ hok)
  refine ⟨⟨fun hok name hin => ?_, fun hthere => ?_⟩, fun specs hok => ?_⟩
  · cases hp : plan with
    | error => rw [hp] at hok; cases hok
    | ok specs =>
      obtain ⟨-, hwires, hsources⟩ := hspecs specs hp
      have hwire : String.ofList name ∈ specs.map FileSpec.wireName :=
        (hwires _).2 (by rw [String.toList_ofList]; exact ⟨hin, not_mem_nil⟩)
      obtain ⟨spec, hspec, hname⟩ := mem_map.1 hwire
      obtain ⟨hsource, hstat⟩ := hsources spec hspec
      rw [hsource, hname, String.toList_ofList, String.toList_ofList] at hstat
      rw [hstat]
      rfl
  · obtain ⟨specs, hok⟩ := addInputs_isOk (E := E) [] hthere
    rw [hplan, hok]
    rfl
  · obtain ⟨hnodup, hwires, hsources⟩ := hspecs specs hok
    refine ⟨hnodup, fun wire => ?_, fun spec hin => ?_⟩
    · rw [hwires]
      exact and_iff_left not_mem_nil
    · obtain ⟨hsource, hstat⟩ := hsources spec hin
      have hname : spec.wireName.toList ∈ uploadNames cmd list := ((hwires _).1 (mem_map_of_mem hin)).1
      have hstays := stays_name (hnames _ hname)
      have hdest := hstays.dest (E := E) dir
      have hunder := hstays.under dir
      rw [String.ofList_toList, ← hsource] at hdest
      rw [← hsource] at hunder
      refine ⟨hdest, hstat, fun k' => ⟨fun hk => sandboxes_apart hk hunder, fun hk => ?_⟩⟩
      rw [hk]
      exact hunder

/-- a job with an executable and one input file -/
def inputAd : Ad Value :=
  ((((Ad.empty.setStr .user "alice@pool").setStr .owner "alice").setStr .iwd "/home/alice").setStr .cmd "/bin/p").setStr
    .transferInput
    "d/q"

/-- the upload of its files -/
def inputUpload : Spool.Disk :=
  performAll Value "/s" ∅ [.file (.upload ⟨1, 0⟩) "p" 493 [1], .file (.upload ⟨1, 0⟩) "q" 0 [2]]

theorem alice_input_plan :
    (buildInputPlan 0 inputUpload (finishedAd (sandboxDir "/s" ⟨1, 0⟩) 100 inputAd)).isOk = true ∧
      ∀ specs, buildInputPlan 0 inputUpload (finishedAd (sandboxDir "/s" ⟨1, 0⟩) 100 inputAd) = .ok specs →
        ∀ wire, wire ∈ specs.map FileSpec.wireName ↔ wire.toList ∈ [['p'], ['q']] := by
  have hnames : uploadNames "/bin/p" "d/q" = [['p'], ['q']] := by decide +kernel
  have hproper : ∀ name ∈ uploadNames "/bin/p" "d/q", Name name := by
    rw [hnames]
    intro name hin
    rcases mem_cons.1 hin with rfl | hin
    · exact ⟨⟨by decide, by decide, by decide⟩, by decide⟩
    · rw [mem_singleton.1 hin]
      exact ⟨⟨by decide, by decide, by decide⟩, by decide⟩
  have hsubmitted : Submitted inputAd "alice@pool" "alice" "/bin/p" "d/q" := ⟨rfl, rfl, rfl, rfl, rfl, rfl⟩
  obtain ⟨hok, hplan⟩ :=
    spooled_plan hsubmitted (by decide +kernel) (by decide +kernel) hproper (by decide +kernel) "/s" ⟨1, 0⟩ 100 0
    inputUpload
  refine ⟨hok.2 (by decide +kernel), fun specs hspecs => ?_⟩
  rw [← hnames]
  exact (hplan specs hspecs).2.1

end Spool

end AccessPoint
