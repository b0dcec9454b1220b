/-
The Queue statement of a digest, written and read back (internal/factory/digest.go).

`queueText` is what `append_queue_statement` appends to the assignments of a submit file: a line
`Queue N v1,v2,... from path`. `splitQueueStatement` and `parseQueueLine` find the count, the keyword and the names by
scanning the text; `queue_statement_round_trip` says that they return what was written.

- `indexWord_from`: the keyword found is the one after the names, whatever the names and the path contain.
- `fields_names`: the names are read back from the text they are joined to.
- `splitQueueStatement_text`: the statement is the last line that is not blank, and the body is all before it.
-/
import AccessPoint.Core.Decimal
import AccessPoint.Factory.Digest

namespace AccessPoint

open Text List

/-- the names as the statement has them -/
def joinNames (names : List (List Char)) : List Char := Text.joinWith ',' names

/-- the keyword " from ", as characters -/
abbrev fromWord : List Char := [' ', 'f', 'r', 'o', 'm', ' ']

/-- the Queue statement, without the newline in front and behind -/
def queueLine (n : ℤ) (names : List (List Char)) (path : List Char) : List Char :=
  ['Q', 'u', 'e', 'u', 'e', ' '] ++ (toString n).toList ++ ' ' :: (joinNames names ++ fromWord ++ path)

/-- a digest with the assignments `body` and a Queue statement -/
def queueText (body : List Char) (n : ℤ) (names : List (List Char)) (path : List Char) : List Char :=
  body ++ '\n' :: (queueLine n names path ++ ['\n'])

/-- a variable name: a token without comma or white space, other than the keyword -/
def VarName (v : List Char) : Prop := v ≠ [] ∧ Text.Plain v ∧ ',' ∉ v ∧ v ≠ "from".toList

/-- a path: not empty, on one line, not taken for a slice, without white space at either end -/
def ItemsPath (path : List Char) : Prop := path ≠ [] ∧ '\n' ∉ path ∧ path.head? ≠ some '[' ∧ Text.Trimmed path

instance (v : List Char) : Decidable (VarName v) := inferInstanceAs (Decidable (_ ∧ _))

instance (path : List Char) : Decidable (ItemsPath path) := inferInstanceAs (Decidable (_ ∧ _))

/-! ## Names -/

theorem isBlank_isSpace {c : Char} (h : isBlank c = true) : Text.isSpace c = true := by
  simp only [isBlank, Bool.or_eq_true, decide_eq_true_eq] at h
  rcases h with rfl | rfl <;> decide

theorem Text.Plain.not_blank {s : List Char} (h : Text.Plain s) : ∀ c ∈ s, isBlank c = false := by
  intro c hc
  refine Bool.eq_false_iff.2 fun hb => ?_
  exact absurd (isBlank_isSpace hb) (Bool.eq_false_iff.1 (h c hc))

variable {names : List (List Char)}

/-- the joined names have no white space -/
theorem joinNames_plain (h : ∀ v ∈ names, VarName v) : Text.Plain (joinNames names) := by
  induction names with
  | nil => exact fun c hc => nomatch hc
  | cons v names ih =>
    have hv := (h v mem_cons_self).2.1
    have hrest := ih fun w hw => h w (mem_cons_of_mem v hw)
    cases names with
    | nil => exact hv
    | cons =>
      intro c hc
      rcases mem_append.1 hc with hc | hc
      · exact hv c hc
      · rcases mem_cons.1 hc with rfl | hc
        · decide
        · exact hrest c hc

theorem parts_names (hne : names ≠ []) (h : ∀ v ∈ names, VarName v) : Text.parts ',' (joinNames names) = names :=
  parts_joinWith hne fun v hv => ⟨(h v hv).1, (h v hv).2.1, (h v hv).2.2.1⟩

/-- the joined names are not the keyword -/
theorem joinNames_ne_from (h : ∀ v ∈ names, VarName v) : joinNames names ≠ "from".toList := by
  intro he
  cases names with
  | nil => exact absurd he (by decide)
  | cons v names =>
    have hparts := parts_names (cons_ne_nil v names) h
    rw [he, show parts ',' "from".toList = ["from".toList] by decide] at hparts
    injection hparts with hv
    exact (h v mem_cons_self).2.2.2 hv.symm

/-- the names are the fields of the text they are joined to -/
theorem fields_names (h : ∀ v ∈ names, VarName v) :
    Text.fieldsFunc (fun c => c = ',' || isBlank c) (joinNames names) = names := by
  cases names with
  | nil => rfl
  | cons v names =>
    have hsplit : (joinNames (v :: names)).splitOn ',' = v :: names := by
      rw [joinNames, joinWith_eq]
      exact splitOn_intercalate ',' (fun w hw => (h w hw).2.2.1) (cons_ne_nil v names)
    have hwhole : ∀ w ∈ v :: names, w.splitOnP isBlank = [w] := fun w hw =>
      splitOnP_eq_singleton fun c hc => by simpa using (h w hw).2.1.not_blank c hc
    have hparts : (joinNames (v :: names)).splitOnP (fun c => c = ',' || isBlank c) = v :: names := by
      calc (joinNames (v :: names)).splitOnP (fun c => c = ',' || isBlank c)
          = ((joinNames (v :: names)).splitOn ',').flatMap (splitOnP isBlank) :=
            splitOnP_or (· == ',') isBlank _
        _ = (v :: names).flatMap fun w => [w] := by
            rw [hsplit]
            exact flatMap_congr hwhole
        _ = v :: names := flatMap_singleton' _
    rw [fieldsFunc_eq, hparts, filter_eq_self]
    exact fun w hw => by simpa using (h w hw).1

/-! ## The keyword -/

/-- no position of a text without blanks but the first can start a word, and the first only if the text is that word -/
theorem indexWordFrom_skip {w s : List Char} (hw : ∀ c ∈ w, isBlank c = false) (hs : ∀ c ∈ s, isBlank c = false) {i : ℕ}
    {prev : Option Char} (h : prev.all isBlank = true → s ≠ w) (hne : w ≠ []) (rest : List Char) :
    indexWordFrom w i prev (s ++ ' ' :: rest) = indexWordFrom w (i + s.length + 1) (some ' ') rest := by
  induction s generalizing i prev with
  | nil =>
    obtain ⟨d, ds, rfl⟩ := exists_cons_of_ne_nil hne
    have hno : ¬ d :: ds <+: ' ' :: rest := by
      intro hpre
      have hd : d = ' ' := (cons_prefix_cons.1 hpre).1
      exact absurd (hw d mem_cons_self) (by rw [hd]; decide)
    rw [nil_append, indexWordFrom, if_neg fun hc => hno hc.1]
    rfl
  | cons c cs ih =>
    have hno : ¬ (w <+: c :: (cs ++ ' ' :: rest) ∧ prev.all isBlank = true ∧
        ((c :: (cs ++ ' ' :: rest)).drop w.length).head?.all isBlank = true) := by
      rw [← cons_append]
      rintro ⟨hpre, hprev, hnext⟩
      -- the word ends inside the text, at its end, or beyond the blank
      rcases lt_trichotomy w.length (c :: cs).length with hlt | heq | hgt
      · rw [drop_append_of_le_length hlt.le] at hnext
        obtain ⟨d, _, hd⟩ := exists_cons_of_ne_nil (ne_nil_of_length_pos (by
          rw [length_drop]; omega : 0 < ((c :: cs).drop w.length).length))
        rw [hd] at hnext
        have hmem : d ∈ c :: cs := mem_of_mem_drop (hd ▸ mem_cons_self)
        rw [cons_append, head?_cons, Option.all_some, hs d hmem] at hnext
        cases hnext
      · have hword := prefix_of_prefix_length_le hpre (prefix_append (c :: cs) (' ' :: rest)) heq.le
        exact h hprev (hword.eq_of_length heq).symm
      · have hcut : c :: cs ++ [' '] <+: c :: cs ++ ' ' :: rest := ⟨rest, by simp⟩
        have hlen : (c :: cs ++ [' ']).length ≤ w.length := by
          rw [length_append, length_singleton]
          exact hgt
        have hblank : ' ' ∈ w := (prefix_of_prefix_length_le hcut hpre hlen).subset (by simp)
        exact absurd (hw ' ' hblank) (by decide)
    rw [cons_append, indexWordFrom, if_neg hno, ih (fun d hd => hs d (mem_cons_of_mem c hd))]
    · congr 1
      simp only [length_cons]
      omega
    · intro hprev
      rw [Option.all_some, hs c mem_cons_self] at hprev
      cases hprev

theorem indexWordFrom_here {w rest : List Char} (hne : w ≠ []) (i : ℕ) {prev : Option Char}
    (hprev : prev.all isBlank = true) :
    indexWordFrom w i prev (w ++ ' ' :: rest) = some i := by
  obtain ⟨_, _, rfl⟩ := exists_cons_of_ne_nil hne
  rw [cons_append, indexWordFrom, if_pos]
  exact ⟨⟨' ' :: rest, rfl⟩, hprev, by simp [isBlank]⟩

/-! ## The line -/

/-- what follows the count, once trimmed: the names and a blank unless there are none, the keyword, the path -/
def clauseText (names : List (List Char)) (path : List Char) : List Char :=
  (if names = [] then [] else joinNames names ++ [' ']) ++ ("from".toList ++ ' ' :: path)

theorem joinNames_cons (v : List Char) (names : List (List Char)) : ∃ rest, joinNames (v :: names) = v ++ rest := by
  cases names with
  | nil => exact ⟨[], by simp [joinNames, joinWith]⟩
  | cons => exact ⟨_, rfl⟩

/-- a text that begins like a trimmed one and ends like another -/
theorem trimmed_append {s t : List Char} (hs : s ≠ []) (ht : t ≠ []) (hhead : ∀ c ∈ s.head?, Text.isSpace c = false)
    (hlast : ∀ c ∈ t.getLast?, Text.isSpace c = false) (mid : List Char) : Text.Trimmed (s ++ (mid ++ t)) := by
  obtain ⟨_, _, rfl⟩ := exists_cons_of_ne_nil hs
  refine ⟨hhead, ?_⟩
  rw [← append_assoc, getLast?_append_of_ne_nil _ ht]
  exact hlast

variable {path : List Char}

theorem clauseText_trimmed (h : ∀ v ∈ names, VarName v) (hpath : ItemsPath path) :
    Text.trimSpace (' ' :: (joinNames names ++ fromWord ++ path)) = clauseText names path := by
  obtain ⟨hne, -, -, htrim⟩ := hpath
  cases names with
  | nil =>
    have hword : Text.Trimmed "from".toList := by decide
    have hfrom : Text.Trimmed ("from".toList ++ (" ".toList ++ path)) :=
      trimmed_append (by decide) hne hword.1 htrim.2 " ".toList
    have hleft : Text.Blank "  ".toList := by decide
    have hpad := trimSpace_around hleft hfrom blank_nil
    simpa [clauseText, joinNames, joinWith] using hpad
  | cons v names =>
    obtain ⟨rest, hrest⟩ := joinNames_cons v names
    have hv := h v mem_cons_self
    have hall : Text.Trimmed (v ++ ((rest ++ fromWord) ++ path)) :=
      trimmed_append hv.1 hne hv.2.1.trimmed.1 htrim.2 _
    have hleft : Text.Blank " ".toList := by decide
    have hpad := trimSpace_around hleft hall blank_nil
    simpa [clauseText, hrest] using hpad

theorem queueClauses_text (h : ∀ v ∈ names, VarName v) (hpath : ItemsPath path) :
    queueClauses (clauseText names path) = (joinNames names, [], path) := by
  obtain ⟨-, -, hslice, htrim⟩ := hpath
  have hfrom : parseFrom path = ([], path) := by
    unfold parseFrom
    split
    · exact absurd rfl hslice
    · rfl
  have hfile : trimSpace (' ' :: path) = path := by
    rw [trimSpace_cons (by decide)]
    exact trimSpace_trimmed htrim
  cases names with
  | nil =>
    have hidx : indexWord (clauseText [] path) "from".toList = some 0 := indexWordFrom_here (by decide) 0 rfl
    simp only [queueClauses, hidx]
    have hdrop : (clauseText [] path).drop (0 + 4) = ' ' :: path := rfl
    rw [hdrop, hfile, hfrom]
    rfl
  | cons v names =>
    have hplain := joinNames_plain h
    have htext : clauseText (v :: names) path = joinNames (v :: names) ++ ' ' :: ("from".toList ++ ' ' :: path) := by
      simp [clauseText]
    have hidx : indexWord (clauseText (v :: names) path) "from".toList =
      some ((joinNames (v :: names)).length + 1) := by
      have hword : Text.Plain "from".toList := by decide
      rw [indexWord, htext,
        indexWordFrom_skip hword.not_blank hplain.not_blank (fun _ => joinNames_ne_from h) (by decide),
        indexWordFrom_here (by decide) _ (by decide), Nat.zero_add]
    have htake : (clauseText (v :: names) path).take ((joinNames (v :: names)).length + 1) =
        joinNames (v :: names) ++ [' '] := by
      rw [htext, take_length_add_append]
      rfl
    have hdrop : (clauseText (v :: names) path).drop ((joinNames (v :: names)).length + 1 + 4) = ' ' :: path := by
      rw [htext, Nat.add_assoc, drop_length_add_append]
      rfl
    have hvars : trimSpace (joinNames (v :: names) ++ [' ']) = joinNames (v :: names) := by
      have hright : Text.Blank " ".toList := by decide
      have hpad := trimSpace_padded blank_nil hplain hright
      simpa using hpad
    simp only [queueClauses, hidx, htake, hdrop, hvars, hfile, hfrom]

/-- the parser reads back the count, the names and the path -/
theorem parseQueueLine_text {n : ℤ} (hn : 1 ≤ n) (hhigh : n < 2 ^ 63) (h : ∀ v ∈ names, VarName v)
    (hpath : ItemsPath path) :
    parseQueueLine (queueLine n names path) = ⟨n, names, path, []⟩ := by
  have hnum := numeral_plain n
  have hdrop : (queueLine n names path).drop 5 =
      ' ' :: ((toString n).toList ++ ' ' :: (joinNames names ++ fromWord ++ path)) := rfl
  have htrim : trimSpace ((queueLine n names path).drop 5) =
      (toString n).toList ++ ' ' :: (joinNames names ++ fromWord ++ path) := by
    rw [hdrop, trimSpace_cons (by decide)]
    refine trimSpace_trimmed ?_
    have hends := trimmed_append (numeral_ne_nil n) hpath.1 hnum.trimmed.1 hpath.2.2.2.2
      (' ' :: (joinNames names ++ fromWord))
    simpa using hends
  have hfirst : ((toString n).toList ++ ' ' :: (joinNames names ++ fromWord ++ path)).takeWhile (fun c => !isBlank c) =
      (toString n).toList := by
    rw [takeWhile_append_of_pos fun c hc => by simp [hnum.not_blank c hc]]
    simp [isBlank]
  have hcount : queueCount ((toString n).toList ++ ' ' :: (joinNames names ++ fromWord ++ path)) =
      (n, clauseText names path) := by
    simp only [queueCount, hfirst, atoi_toString (by omega : -2 ^ 63 ≤ n) hhigh, drop_left,
      clauseText_trimmed h hpath]
  simp only [parseQueueLine, htrim, hcount, queueClauses_text h hpath, fields_names h]
  rw [if_neg (by omega)]

/-! ## The statement in its digest -/

theorem queueLine_trimmed (n : ℤ) (names : List (List Char)) (hpath : ItemsPath path) :
    Text.trimSpace (queueLine n names path) = queueLine n names path := by
  refine trimSpace_trimmed ?_
  have hword : Text.Trimmed "Queue".toList := by decide
  have hends := trimmed_append (by decide) hpath.1 hword.1 hpath.2.2.2.2
    (' ' :: ((toString n).toList ++ ' ' :: (joinNames names ++ fromWord)))
  simpa [queueLine] using hends

theorem queueLine_newline {n : ℤ} (h : ∀ v ∈ names, VarName v)
    (hpath : ItemsPath path) : '\n' ∉ queueLine n names path := by
  have hplain : ∀ {s : List Char}, Text.Plain s → '\n' ∉ s := fun hs hm => absurd (hs '\n' hm) (by decide)
  have hnum := hplain (numeral_plain n)
  have hnames := hplain (joinNames_plain h)
  rw [queueLine]
  intro hm
  rcases mem_append.1 hm with hm | hm
  · rcases mem_append.1 hm with hm | hm
    · exact absurd hm (by decide)
    · exact hnum hm
  · rcases mem_cons.1 hm with hm | hm
    · exact absurd hm (by decide)
    · rcases mem_append.1 hm with hm | hm
      · rcases mem_append.1 hm with hm | hm
        · exact hnames hm
        · exact absurd hm (by decide)
      · exact hpath.2.1 hm

/-- the statement is the last line that is not blank, and the body is what stands before it -/
theorem splitQueueStatement_text (body : List Char) {n : ℤ} (h : ∀ v ∈ names, VarName v) (hpath : ItemsPath path) :
    splitQueueStatement (queueText body n names path) = (body, queueLine n names path) := by
  have hlines : splitAt '\n' (queueText body n names path) =
      splitAt '\n' body ++ [queueLine n names path, []] := by
    rw [queueText, splitAt_sep, splitAt_append (queueLine_newline h hpath)]
    rfl
  have hline : isQueueLine (queueLine n names path) = true := rfl
  have hne : queueLine n names path ≠ [] := cons_ne_nil 'Q' _
  have htrim := queueLine_trimmed n names hpath
  rw [splitQueueStatement, hlines]
  simp only [reverse_append, reverse_cons, reverse_nil, nil_append, cons_append]
  rw [splitQueueStatement.go]
  simp only [show trimSpace ([] : List Char) = [] from rfl, if_true]
  rw [splitQueueStatement.go]
  simp only [htrim, if_neg hne, hline, if_true, reverse_reverse, joinWith_splitAt]

/-- **Queue statement round trip.** A digest with a Queue statement is split and parsed back into the body, the count,
the names and the path it was written from. -/
theorem queue_statement_round_trip (body : String) (n : Int64) (hn : 1 ≤ n.toInt) (names : List String)
    (hnames : ∀ v ∈ names, VarName v.toList) (path : String) (hpath : ItemsPath path.toList) :
    let text := queueText body.toList n.toInt (names.map String.toList) path.toList
    String.ofList (splitQueueStatement text).1 = body ∧
      parseQueueLine (splitQueueStatement text).2 = ⟨n.toInt, names.map String.toList, path.toList, []⟩ := by
  have hvars : ∀ v ∈ names.map String.toList, VarName v := by
    intro v hv
    obtain ⟨name, hname, rfl⟩ := mem_map.1 hv
    exact hnames name hname
  dsimp only
  rw [splitQueueStatement_text body.toList hvars hpath]
  refine ⟨String.ofList_toList, ?_⟩
  exact parseQueueLine_text hn n.toInt_lt hvars hpath

/-- names and a path with the keyword inside -/
theorem keyword_like_names_read_back :
    let text := queueText "arguments=$(city)".toList 3 ["city".toList, "from_zip".toList] "rows from 2024.txt".toList
    String.ofList (splitQueueStatement text).1 = "arguments=$(city)" ∧
      parseQueueLine (splitQueueStatement text).2 =
        ⟨3, ["city".toList, "from_zip".toList], "rows from 2024.txt".toList, []⟩ :=
  queue_statement_round_trip "arguments=$(city)" 3 (by decide) ["city", "from_zip"] (by decide) "rows from 2024.txt"
    (by decide)

end AccessPoint
