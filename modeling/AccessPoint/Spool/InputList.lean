/-
The input files of a spooled job (internal/spool/spool.go, `rewriteSpooledJobAd`; shadow/transfer.go, `splitFileList`
and `buildInputPlan`).

`rewriteBasenameList` takes `TransferInput` apart at commas only; the shadow takes it apart at commas, blanks, tabs and
newlines, so an entry of the rewrite may be several files of the shadow. Of "/data/a /data/b" the rewrite keeps the last
element of the last file only.

- `rewritten_input_list`: what the rewrite leaves, what it keeps for the client, and that a second one does nothing.
- `blank_separated_list_loses_files`.
-/
import AccessPoint.Core.Tokens
import AccessPoint.Literal
import AccessPoint.Sched.Rewrites

namespace AccessPoint

open ClassAdLib

namespace Shadow

/-- the characters `splitFileList` splits at -/
def isListSep (c : Char) : Bool := c == ',' || (c == ' ' || c == '\t' || c == '\n')

/-- `splitFileList` -/
def splitFileList (list : String) : List (List Char) :=
  ((Text.fieldsFunc isListSep list.toList).map Text.trimSpace).filter (· ≠ [])

/-- those that are white space -/
def isBlankSep (c : Char) : Bool := c == ' ' || c == '\t' || c == '\n'

theorem isSpace_of_blankSep (c : Char) (h : isBlankSep c = true) : Text.isSpace c = true := by
  simp only [isBlankSep, Bool.or_eq_true, beq_iff_eq] at h
  rcases h with (rfl | rfl) | rfl <;> decide

end Shadow

namespace Text

theorem pathBase_ne_nil (s : List Char) : pathBase s ≠ [] := by
  unfold pathBase
  dsimp only
  split_ifs with hnil hlast
  · simp
  · simp
  · exact hlast

theorem pathBase_sublist {s : List Char} (hs : s ≠ []) : (pathBase s).Sublist s := by
  unfold pathBase
  dsimp only
  rw [if_neg hs]
  split_ifs with hlast
  · refine List.singleton_sublist.2 (by_contra fun hno => ?_)
    -- without a slash the last element is the whole
    have hne : ∀ c ∈ s.reverse, decide (c ≠ '/') = true := fun c hc => decide_eq_true fun he =>
      hno (he ▸ List.mem_reverse.1 hc)
    have htrim : s.reverse.dropWhile (· = '/') = s.reverse := by
      cases hr : s.reverse with
      | nil => rfl
      | cons c =>
        have hc : c ≠ '/' := of_decide_eq_true (hne c (hr ▸ List.mem_cons_self))
        simp [hc]
    rw [trimRight, htrim, List.reverse_reverse, List.takeWhile_eq_self_iff.2 hne, List.reverse_reverse] at hlast
    exact hs hlast
  · have hrev := (List.takeWhile_prefix (p := (· ≠ '/')) (l := (trimRight (· = '/') s).reverse)).sublist.reverse
    rw [List.reverse_reverse] at hrev
    refine hrev.trans ?_
    have hright := (List.dropWhile_suffix (l := s.reverse) (· = '/')).sublist.reverse
    rwa [List.reverse_reverse] at hright

end Text

namespace Spool

open Shadow Text

variable {val : String}

/-- on entries without white space the rewrite and the shadow see the same files -/
theorem splitFileList_eq (h : ∀ e ∈ listEntries val, Plain e) : splitFileList val = listEntries val :=
  words_eq_parts isSpace_of_blankSep h

/-- the files the shadow reads, entry by entry -/
theorem splitFileList_entries (val : String) : splitFileList val = (listEntries val).flatMap (words isBlankSep) :=
  words_parts val.toList

theorem splitFileList_split (list : String) :
    splitFileList list = (splitAt ',' list.toList).flatMap (words isBlankSep) :=
  words_splitAt list.toList

variable {e : List Char}

theorem splitFileList_whole (h : ',' ∉ e) : splitFileList (String.ofList e) = words isBlankSep e := by
  rw [splitFileList_split, String.toList_ofList, splitAt_whole h, List.flatMap_singleton]

theorem entry_ne_nil (h : e ∈ listEntries val) : e ≠ [] := by
  simpa using (List.mem_filter.1 h).2

theorem entryBase_sublist (h : e ∈ listEntries val) : (entryBase e).Sublist e := by
  unfold entryBase
  split_ifs
  · exact List.Sublist.refl e
  · exact pathBase_sublist (entry_ne_nil h)

theorem comma_not_mem_entryBase (h : e ∈ listEntries val) : ',' ∉ entryBase e := fun hc =>
  sep_not_mem_part h ((entryBase_sublist h).subset hc)

/-- the shadow reads the joined names one by one -/
theorem splitFileList_joined (hne : listEntries val ≠ []) :
    splitFileList (String.ofList (joinWith ',' ((listEntries val).map entryBase))) =
      (listEntries val).flatMap fun e => words isBlankSep (entryBase e) := by
  rw [splitFileList_split, String.toList_ofList, splitAt_eq, joinWith_eq, List.splitOn_intercalate, List.flatMap_map]
  · intro name hin
    obtain ⟨_, he, rfl⟩ := List.mem_map.1 hin
    exact comma_not_mem_entryBase he
  · exact fun hnil => hne (List.map_eq_nil_iff.1 hnil)

/-- the files of an entry are those of its name in the sandbox -/
def KeepsFiles (e : List Char) : Prop :=
  splitFileList (String.ofList (entryBase e)) = (splitFileList (String.ofList e)).map entryBase

theorem keepsFiles_iff (h : e ∈ listEntries val) :
    KeepsFiles e ↔ words isBlankSep (entryBase e) = (words isBlankSep e).map entryBase := by
  rw [KeepsFiles, splitFileList_whole (comma_not_mem_entryBase h), splitFileList_whole (sep_not_mem_part h)]

theorem keepsFiles_plain (h : e ∈ listEntries val) (hplain : Plain e) : KeepsFiles e := by
  have hbase : Plain (entryBase e) := fun c hc => hplain c ((entryBase_sublist h).subset hc)
  have hne : entryBase e ≠ [] := by
    unfold entryBase
    split_ifs
    · exact entry_ne_nil h
    · exact pathBase_ne_nil e
  rw [keepsFiles_iff h, words_plain isSpace_of_blankSep hbase hne,
    words_plain isSpace_of_blankSep hplain (entry_ne_nil h)]
  rfl

/-- lists that are no longer than their counterparts and together the same are the same one by one -/
theorem flatMap_eq_iff {α β : Type} {f g : α → List β} {l : List α} (h : ∀ a ∈ l, (f a).length ≤ (g a).length) :
    l.flatMap f = l.flatMap g ↔ ∀ a ∈ l, f a = g a := by
  refine ⟨fun heq => ?_, List.flatMap_congr⟩
  induction l with
  | nil => exact fun a ha => nomatch ha
  | cons a l ih =>
    have hrest : ∀ l' : List α, (∀ b ∈ l', (f b).length ≤ (g b).length) →
        (l'.flatMap f).length ≤ (l'.flatMap g).length := by
      intro l' h'
      induction l' with
      | nil => exact le_rfl
      | cons b l' ih' =>
        have hb := h' b List.mem_cons_self
        have hl' := ih' fun b' hb' => h' b' (List.mem_cons_of_mem b hb')
        simp only [List.flatMap_cons, List.length_append]
        omega
    have ha := h a List.mem_cons_self
    have hl := hrest l fun b hb => h b (List.mem_cons_of_mem a hb)
    have hlen := congrArg List.length heq
    simp only [List.flatMap_cons, List.length_append] at heq hlen
    obtain ⟨hhead, htail⟩ := List.append_inj heq (by omega)
    exact List.forall_mem_cons.2 ⟨hhead, ih (fun b hb => h b (List.mem_cons_of_mem a hb)) htail⟩

/-- what the shadow reads after the rewrite, against the names of what it would have read before -/
theorem reread_iff {val' : String}
    (h : splitFileList val' = (listEntries val).flatMap fun e => words isBlankSep (entryBase e)) :
    splitFileList val' = (splitFileList val).map entryBase ↔ ∀ e ∈ listEntries val, KeepsFiles e := by
  rw [h, splitFileList_entries, List.map_flatMap, flatMap_eq_iff fun e he => ?_]
  · exact forall₂_congr fun e he => (keepsFiles_iff he).symm
  · rw [List.length_map]
    exact words_length_le (entryBase_sublist he)

variable {E : Type} [ClassAdLib E]

/-- the list of an ad after the rewrite of the list alone -/
theorem rewriteBasenameList_reads {ad : Ad E} (hval : ad .transferInput = some (lit (.str val))) :
    ∃ val', (rewriteBasenameList ad .transferInput .submitTransferInput).evaluateAttrString .transferInput = some val' ∧
      splitFileList val' = ((listEntries val).flatMap fun e => words isBlankSep (entryBase e)) ∧
      (val' ≠ val → (rewriteBasenameList ad .transferInput .submitTransferInput).evaluateAttrString
        .submitTransferInput = some val) := by
  have hread : ad.evaluateAttrString .transferInput = some val := Ad.evaluateAttrString_lit hval
  by_cases hkeep : val = "" ∨ ∀ e ∈ listEntries val, entryBase e = e
  · have hsame : rewriteBasenameList ad .transferInput .submitTransferInput = ad := by
      simp only [rewriteBasenameList, hread, if_pos hkeep]
    refine ⟨val, by rw [hsame, hread], ?_, fun hne => absurd rfl hne⟩
    have hbases : ∀ e ∈ listEntries val, entryBase e = e := by
      rcases hkeep with rfl | hkeep
      · have hnil : listEntries "" = [] := by decide
        rw [hnil]
        exact fun e he => nomatch he
      · exact hkeep
    rw [splitFileList_entries]
    exact List.flatMap_congr fun e he => by rw [hbases e he]
  · have hnew : rewriteBasenameList ad .transferInput .submitTransferInput =
        (ad.setStr .submitTransferInput val).setStr .transferInput
          (String.ofList (joinWith ',' ((listEntries val).map entryBase))) := by
      simp only [rewriteBasenameList, hread, if_neg hkeep]
    have hne : listEntries val ≠ [] := by
      intro hnil
      exact hkeep (.inr (by rw [hnil]; exact fun e he => nomatch he))
    refine ⟨_, by rw [hnew]; exact Ad.evaluateAttrString_lit rfl, splitFileList_joined hne, fun _ => ?_⟩
    rw [hnew]
    exact Ad.evaluateAttrString_lit rfl

/-- the single paths among the rewritten attributes -/
def pathAttrs : List Attr := [.cmd, .submitCmd, .inFile, .submitIn, .userLog, .submitUserLog]

/-- the rewrite of the list comes last, and finds the list as it was -/
theorem rewriteSpooledJobAd_fresh {ad : Ad E} (h : ad .submitIwd = none) (dir : String) :
    ∃ pre : Ad E, rewriteSpooledJobAd ad dir = rewriteBasenameList pre .transferInput .submitTransferInput ∧
      pre .transferInput = ad .transferInput ∧ (pre .submitIwd).isSome := by
  let placed := rewriteIwd ad dir
  have hiwd : (placed .submitIwd).isSome := (rewriteIwd_places ad dir).2
  have hlist : placed .transferInput = ad .transferInput :=
    rewriteIwd_butFor (S := [.iwd, .submitIwd, .transferOutputRemaps, .submitTransferOutputRemaps]) (.refl ad) dir
      (List.Subset.refl _) _ (by decide)
  let cmd := if transferExecutable placed then rewriteBasename placed .cmd .submitCmd else placed
  let stdin := if (cmd.evaluateAttrBool .transferIn).getD true then rewriteBasename cmd .inFile .submitIn else cmd
  have hcmd : placed.ButFor pathAttrs cmd :=
    .branch (rewriteBasename_butFor (.refl _) _ _ (by decide) (by decide)) (.refl _)
  have hstdin : placed.ButFor pathAttrs stdin := .branch (rewriteBasename_butFor hcmd _ _ (by decide) (by decide)) hcmd
  have hpre : placed.ButFor pathAttrs (rewriteBasename stdin .userLog .submitUserLog) :=
    rewriteBasename_butFor hstdin _ _ (by decide) (by decide)
  refine ⟨rewriteBasename stdin .userLog .submitUserLog, ?_, ?_, ?_⟩
  · have hnone : ¬ (ad.lookup .submitIwd).isSome := by rw [Ad.lookup_eq, h]; exact Bool.false_ne_true
    rw [rewriteSpooledJobAd, if_neg hnone]
  · rw [hpre _ (by decide), hlist]
  · rw [hpre _ (by decide)]
    exact hiwd

/-- **The input list of a spooled job.** The shadow reads exactly the entries it would have read before, each path by
its last element, when that is so of each entry between commas by itself, and only then. The original is kept when the
list changes, and a second rewrite changes nothing; these two hold of every list. -/
theorem rewritten_input_list (ad : Ad E) (dir val : String) (hfresh : ad .submitIwd = none)
    (hval : ad .transferInput = some (lit (.str val))) :
    ∃ val', (rewriteSpooledJobAd ad dir).evaluateAttrString .transferInput = some val' ∧
      (splitFileList val' = (splitFileList val).map entryBase ↔ ∀ e ∈ listEntries val, KeepsFiles e) ∧
      (val' ≠ val → (rewriteSpooledJobAd ad dir).evaluateAttrString .submitTransferInput = some val) ∧
      ∀ dir', rewriteSpooledJobAd (rewriteSpooledJobAd ad dir) dir' = rewriteSpooledJobAd ad dir := by
  obtain ⟨pre, hrewrite, hlist, hiwd⟩ := rewriteSpooledJobAd_fresh hfresh dir
  obtain ⟨val', hval', hreads, hkept⟩ := rewriteBasenameList_reads (hlist.trans hval)
  refine ⟨val', by rw [hrewrite]; exact hval', reread_iff hreads, by rw [hrewrite]; exact hkept, fun dir' => ?_⟩
  have hdone : ((rewriteSpooledJobAd ad dir).lookup .submitIwd).isSome := by
    rw [hrewrite, Ad.lookup_eq, rewriteBasenameList_butFor (S := [.transferInput, .submitTransferInput]) (.refl pre) _ _
      (by decide) (by decide) _ (by decide)]
    exact hiwd
  exact if_pos hdone

/-! ## Two lists -/

/-- a job with an input list -/
def listedAd (list : String) : Ad Value := (Ad.empty.setStr .iwd "/home/alice").setStr .transferInput list

/-- what the shadow reads of the list before and after the rewrite -/
def readLists (list : String) : List (List Char) × Option (List (List Char)) :=
  (splitFileList list,
    ((rewriteSpooledJobAd (listedAd list) "/spool").evaluateAttrString .transferInput).map splitFileList)

/-- entries between commas, one of them two files that are names already -/
theorem comma_separated_list_kept :
    let list := "/data/a, http://web/b,c d"
    let ad := rewriteSpooledJobAd (listedAd list) "/spool"
    ∃ val', ad.evaluateAttrString .transferInput = some val' ∧
      splitFileList val' = ["a".toList, "http://web/b".toList, "c".toList, "d".toList] ∧
      (val' ≠ list → ad.evaluateAttrString .submitTransferInput = some list) ∧
      ∀ dir', rewriteSpooledJobAd ad dir' = ad := by
  intro list ad
  obtain ⟨val', hval', hreads, hkept, htwice⟩ := rewritten_input_list (listedAd list) "/spool" list rfl rfl
  have hkeeps : ∀ e ∈ listEntries list, KeepsFiles e := by
    unfold KeepsFiles
    decide +kernel
  refine ⟨val', hval', (hreads.2 hkeeps).trans (by decide +kernel), hkept, htwice⟩

/-- **A list separated by blanks loses files.** The shadow would have read two files and reads one. -/
theorem blank_separated_list_loses_files :
    readLists "/data/a /data/b" = (["/data/a".toList, "/data/b".toList], some ["b".toList]) ∧
      ["/data/a".toList, "/data/b".toList].map entryBase = ["a".toList, "b".toList] := by
  decide +kernel

end Spool

end AccessPoint
