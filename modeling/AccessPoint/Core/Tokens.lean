/-
Two ways to read a list of names out of a text: split at a separator and trim every part, or take the fields between
separators and white space. They give the same names when no part has white space inside (`words_eq_parts`), and a list
that was joined from such names is read back (`parts_joinWith`).
-/
import Mathlib.Data.List.TakeWhile
import AccessPoint.Core.Text

namespace AccessPoint.Text

open List

/-! ## The functions of the host language as those of the list library -/

theorem splitAt_eq (sep : Char) (s : List Char) : splitAt sep s = s.splitOn sep := by
  induction s with
  | nil => rfl
  | cons c cs ih =>
    have hcons : (c :: cs).splitOn sep = if c == sep then [] :: cs.splitOn sep
      else (cs.splitOn sep).modifyHead (cons c) := splitOnP_cons_eq_if_modifyHead c cs
    rw [splitAt, ih, hcons]
    obtain ⟨part, parts, hparts⟩ := exists_cons_of_ne_nil (splitOnP_ne_nil (· == sep) cs)
    change cs.splitOn sep = part :: parts at hparts
    by_cases hc : c = sep
    · simp [hc]
    · simp [hc, hparts]

theorem fieldsFunc_eq (p : Char → Bool) (s : List Char) : fieldsFunc p s = (s.splitOnP p).filter (· ≠ []) := by
  unfold fieldsFunc
  refine congrArg (filter (· ≠ [])) ?_
  induction s with
  | nil => rfl
  | cons c cs ih =>
    rw [foldr_cons, ih, splitOnP_cons_eq_if_modifyHead]
    obtain ⟨_, _, hparts⟩ := exists_cons_of_ne_nil (splitOnP_ne_nil p cs)
    rw [hparts]
    cases p c <;> rfl

theorem joinWith_eq (sep : Char) (parts : List (List Char)) : joinWith sep parts = [sep].intercalate parts := by
  induction parts with
  | nil => rfl
  | cons part parts ih =>
    cases parts with
    | nil => simp [joinWith]
    | cons => simp [joinWith, ih, intercalate, intersperse]

/-- splitting a text cut at a separator -/
theorem splitAt_sep (sep : Char) (s t : List Char) : splitAt sep (s ++ sep :: t) = splitAt sep s ++ splitAt sep t := by
  induction s with
  | nil => simp [splitAt]
  | cons c cs ih =>
    rw [cons_append, splitAt, splitAt, ih]
    split_ifs with hc
    · rfl
    · obtain ⟨part, parts, hparts⟩ := exists_cons_of_ne_nil (splitOnP_ne_nil (· == sep) cs)
      have hcs : splitAt sep cs = part :: parts := (splitAt_eq sep cs).trans hparts
      rw [hcs]
      rfl

theorem joinWith_splitAt (sep : Char) (s : List Char) : joinWith sep (splitAt sep s) = s := by
  rw [joinWith_eq, splitAt_eq]
  exact intercalate_splitOn sep

variable {s : List Char} {sep : Char}

theorem splitAt_whole (h : sep ∉ s) : splitAt sep s = [s] := by
  induction s with
  | nil => rfl
  | cons c cs ih =>
    have hc : c ≠ sep := fun he => h (he ▸ mem_cons_self)
    rw [splitAt, if_neg hc, ih fun hm => h (mem_cons_of_mem c hm)]

/-- the first part ends at the first separator -/
theorem splitAt_append {part : List Char} (h : sep ∉ part) (s : List Char) :
    splitAt sep (part ++ sep :: s) = part :: splitAt sep s := by
  rw [splitAt_sep, splitAt_whole h]
  rfl

variable {c : Char}

/-- what stands before the first of a kind of characters -/
theorem takeWhile_ne_append {word : List Char} (h : c ∉ word) (s : List Char) :
    (word ++ c :: s).takeWhile (· ≠ c) = word ∧ (word ++ c :: s).dropWhile (· ≠ c) = c :: s := by
  have hall : ∀ d ∈ word, decide (d ≠ c) = true := fun d hd => decide_eq_true fun he => h (he ▸ hd)
  rw [takeWhile_append_of_pos hall, dropWhile_append_of_pos hall]
  simp

/-- splitting at either of two kinds of separators: at one, and every part at the other -/
theorem splitOnP_or (p q : Char → Bool) (s : List Char) :
    s.splitOnP (fun c => p c || q c) = (s.splitOnP p).flatMap (List.splitOnP q) := by
  induction s with
  | nil => rfl
  | cons c cs ih =>
    obtain ⟨part, _, hparts⟩ := exists_cons_of_ne_nil (splitOnP_ne_nil p cs)
    obtain ⟨_, _, hfields⟩ := exists_cons_of_ne_nil (splitOnP_ne_nil q part)
    rw [splitOnP_cons_eq_if_modifyHead, splitOnP_cons_eq_if_modifyHead, ih, hparts]
    cases hp : p c <;> cases hq : q c <;> simp [splitOnP_cons_eq_if_modifyHead, hq, hfields]

/-- what a part is made of comes from the text and is no separator -/
theorem mem_of_mem_splitOnP {p : Char → Bool} {s part : List Char} (h : part ∈ s.splitOnP p) :
    ∀ c ∈ part, c ∈ s ∧ p c = false := by
  induction s generalizing part with
  | nil =>
    intro c hc
    rw [splitOnP_nil, mem_singleton] at h
    rw [h] at hc
    cases hc
  | cons d ds ih =>
    obtain ⟨first, rest, hsplit⟩ := exists_cons_of_ne_nil (splitOnP_ne_nil p ds)
    rw [splitOnP_cons_eq_if_modifyHead, hsplit] at h
    rw [hsplit] at ih
    have hlater : ∀ {part'}, part' ∈ first :: rest → ∀ c ∈ part', c ∈ d :: ds ∧ p c = false := fun hin c hc =>
      ⟨mem_cons_of_mem d (ih hin c hc).1, (ih hin c hc).2⟩
    intro c hc
    split_ifs at h with hd
    · rcases mem_cons.1 h with rfl | h
      · cases hc
      · exact hlater h c hc
    · rcases mem_cons.1 h with rfl | h
      · rcases mem_cons.1 hc with rfl | hc
        · exact ⟨mem_cons_self, Bool.eq_false_iff.2 hd⟩
        · exact hlater mem_cons_self c hc
      · exact hlater (mem_cons_of_mem first h) c hc

/-! ## Trimming -/

/-- no white space -/
def Plain (s : List Char) : Prop := ∀ c ∈ s, isSpace c = false

/-- white space only -/
def Blank (s : List Char) : Prop := ∀ c ∈ s, isSpace c = true

-- decided along the text, not over all characters
instance (s : List Char) : Decidable (Plain s) := List.decidableBAll (fun c => isSpace c = false) s

instance (s : List Char) : Decidable (Blank s) := List.decidableBAll (fun c => isSpace c = true) s

theorem blank_nil : Blank [] := fun _ hc => nomatch hc

theorem trimSpace_cons (hc : isSpace c = true) (s : List Char) : trimSpace (c :: s) = trimSpace s := by
  simp [trimSpace, trimLeft, hc]

/-- no white space at either end -/
def Trimmed (s : List Char) : Prop := (∀ c ∈ s.head?, isSpace c = false) ∧ ∀ c ∈ s.getLast?, isSpace c = false

instance (s : List Char) : Decidable (Trimmed s) :=
  decidable_of_iff ((s.head?.all fun c => !isSpace c) && s.getLast?.all fun c =>
    !isSpace c) (by simp [Trimmed, Option.all_eq_true])

theorem Plain.trimmed (h : Plain s) : Trimmed s :=
  ⟨fun c hc => h c (mem_of_mem_head? hc), fun c hc => h c (mem_of_mem_getLast? hc)⟩

/-- white space around a trimmed text -/
theorem trimSpace_around {left text right : List Char} (hleft : Blank left) (htext : Trimmed text)
    (hright : Blank right) :
    trimSpace (left ++ text ++ right) = text := by
  induction left with
  | cons c cs ih =>
    rw [cons_append, cons_append, trimSpace_cons (hleft c mem_cons_self)]
    exact ih fun d hd => hleft d (mem_cons_of_mem c hd)
  | nil =>
    have hend : trimRight isSpace (text ++ right) = text := by
      unfold trimRight
      rw [reverse_append, dropWhile_append_of_pos fun c hc => hright c (mem_reverse.1 hc)]
      have hstop : text.reverse.dropWhile isSpace = text.reverse := by
        cases hrev : text.reverse with
        | nil => rfl
        | cons c =>
          have hc : c ∈ text.getLast? := by
            rw [← head?_reverse, hrev]
            rfl
          simp [htext.2 c hc]
      rw [hstop, reverse_reverse]
    cases text with
    | nil =>
      have hblank : right.dropWhile isSpace = [] := dropWhile_eq_nil_iff.2 hright
      simp [trimSpace, trimLeft, trimRight, hblank]
    | cons c cs =>
      have hstart : trimLeft isSpace (c :: cs ++ right) = c :: cs ++ right := by
        simp [trimLeft, htext.1 c rfl]
      rw [nil_append, trimSpace, hstart, hend]

variable {left word right : List Char}

/-- white space around a word -/
theorem trimSpace_padded (hleft : Blank left) (hword : Plain word) (hright : Blank right) :
    trimSpace (left ++ word ++ right) = word :=
  trimSpace_around hleft hword.trimmed hright

theorem trimSpace_trimmed (h : Trimmed s) : trimSpace s = s := by
  have hpad : trimSpace ([] ++ s ++ []) = s := trimSpace_around blank_nil h blank_nil
  simpa using hpad

theorem trimSpace_plain (h : Plain s) : trimSpace s = s := trimSpace_trimmed h.trimmed

theorem trimSpace_blank (h : Blank s) : trimSpace s = [] := by
  have hpad : trimSpace ([] ++ [] ++ s) = [] := trimSpace_padded blank_nil (fun c hc => nomatch hc) h
  simpa using hpad

theorem mem_dropWhile {p : Char → Bool} (h : c ∈ s) (hc : p c = false) : c ∈ s.dropWhile p := by
  have hsplit : c ∈ s.takeWhile p ++ s.dropWhile p := by rwa [takeWhile_append_dropWhile]
  refine (mem_append.1 hsplit).resolve_left fun htake => ?_
  rw [mem_takeWhile_imp htake] at hc
  cases hc

theorem mem_trimRight_of {p : Char → Bool} (h : c ∈ s) (hc : p c = false) : c ∈ trimRight p s :=
  mem_reverse.2 (mem_dropWhile (mem_reverse.2 h) hc)

/-- trimming at the end does not reach past a character that stays -/
theorem trimRight_append {p : Char → Bool} (h : c ∈ s) (hc : p c = false) (before : List Char) :
    trimRight p (before ++ s) = before ++ trimRight p s := by
  have hne : s.reverse.dropWhile p ≠ [] := ne_nil_of_mem (mem_dropWhile (mem_reverse.2 h) hc)
  rw [trimRight, reverse_append, dropWhile_append, if_neg (by simpa using hne), reverse_append,
    reverse_reverse]
  rfl

/-- trimming at both ends is trimming at the end when nothing stands in front, or nothing else at all -/
theorem trimSpace_eq_trimRight_iff (s : List Char) :
    trimSpace s = trimRight isSpace s ↔ Blank s ∨ ∀ c ∈ s.head?, isSpace c = false := by
  by_cases hblank : Blank s
  · have hright : trimRight isSpace s = [] := by
      rw [trimRight, reverse_eq_nil_iff, dropWhile_eq_nil_iff]
      exact fun c hc => hblank c (mem_reverse.1 hc)
    simp [hblank, hright, trimSpace_blank hblank]
  · obtain ⟨c, hc, hplain⟩ : ∃ c ∈ s, isSpace c = false := by simpa [Blank] using hblank
    have hsplit : trimRight isSpace s = s.takeWhile isSpace ++ trimSpace s := by
      rw [trimSpace, trimLeft, ← trimRight_append (mem_dropWhile hc hplain) hplain,
        takeWhile_append_dropWhile]
    rw [hsplit, self_eq_append_left]
    cases s with
    | nil => cases hc
    | cons => simp [hblank, takeWhile_cons]

/-- every text is its trimmed form with white space around it -/
theorem exists_padding (s : List Char) : ∃ left right, s = left ++ trimSpace s ++ right ∧ Blank left ∧ Blank right := by
  let rest := s.dropWhile isSpace
  refine ⟨s.takeWhile isSpace, (rest.reverse.takeWhile isSpace).reverse, ?_, ?_, ?_⟩
  · have hrest : trimSpace s ++ (rest.reverse.takeWhile isSpace).reverse = rest := by
      rw [trimSpace, trimRight, trimLeft, ← reverse_append, takeWhile_append_dropWhile, reverse_reverse]
    rw [append_assoc, hrest, takeWhile_append_dropWhile]
  · exact fun c hc => mem_takeWhile_imp hc
  · exact fun c hc => mem_takeWhile_imp (mem_reverse.1 hc)

theorem mem_of_mem_trimSpace (h : c ∈ trimSpace s) : c ∈ s := by
  obtain ⟨_, _, hs, -, -⟩ := exists_padding s
  rw [hs]
  exact mem_append_left _ (mem_append_right _ h)

/-! ## The two readings -/

/-- the trimmed parts between separators, empty ones dropped -/
def parts (sep : Char) (s : List Char) : List (List Char) := ((splitAt sep s).map trimSpace).filter (· ≠ [])

/-- the fields between characters in `p`, trimmed, empty ones dropped -/
def words (p : Char → Bool) (s : List Char) : List (List Char) := ((fieldsFunc p s).map trimSpace).filter (· ≠ [])

/-- dropping the empty parts before trimming changes nothing -/
theorem filter_trimmed (l : List (List Char)) :
    ((l.filter (· ≠ [])).map trimSpace).filter (· ≠ []) = (l.map trimSpace).filter (· ≠ []) := by
  induction l with
  | nil => rfl
  | cons part l ih =>
    cases part with
    | nil => simpa [trimSpace, trimLeft, trimRight] using ih
    | cons =>
      simp only [ne_eq, reduceCtorEq, not_false_eq_true, decide_true, filter_cons_of_pos, map_cons,
        filter_cons] at ih ⊢
      rw [ih]

theorem trimSpace_eq_nil_iff : trimSpace s = [] ↔ Blank s := by
  refine ⟨fun h => ?_, trimSpace_blank⟩
  obtain ⟨_, _, hs, hleft, hright⟩ := exists_padding s
  rw [h, append_nil] at hs
  rw [hs]
  exact fun c hc => (mem_append.1 hc).elim (hleft c) (hright c)

theorem trimSpace_append_blank (hright : Blank right) (s : List Char) : trimSpace (s ++ right) = trimSpace s := by
  have hend : ∀ t : List Char, trimRight isSpace (t ++ right) = trimRight isSpace t := fun t => by
    rw [trimRight, reverse_append, dropWhile_append_of_pos fun c hc => hright c (mem_reverse.1 hc)]
    rfl
  by_cases hblank : Blank s
  · rw [trimSpace_blank hblank, trimSpace_eq_nil_iff]
    exact fun c hc => (mem_append.1 hc).elim (hblank c) (hright c)
  · have hne : s.dropWhile isSpace ≠ [] := fun h => hblank (dropWhile_eq_nil_iff.1 h)
    rw [trimSpace, trimLeft, dropWhile_append, if_neg (by simpa using hne), hend]
    rfl

section

variable {p : Char → Bool}

theorem words_eq (p : Char → Bool) (s : List Char) : words p s = ((s.splitOnP p).map trimSpace).filter (· ≠ []) := by
  rw [words, fieldsFunc_eq, filter_trimmed]

/-- white space in front adds no field -/
theorem words_skip (hleft : Blank left) (s : List Char) : words p (left ++ s) = words p s := by
  induction left with
  | nil => rfl
  | cons c cs ih =>
    rw [← ih fun d hd => hleft d (mem_cons_of_mem c hd), words_eq, words_eq]
    obtain ⟨_, _, hsplit⟩ := exists_cons_of_ne_nil (splitOnP_ne_nil p (cs ++ s))
    rw [cons_append, splitOnP_cons_eq_if_modifyHead]
    split_ifs
    · simp [trimSpace, trimLeft, trimRight]
    · simp [hsplit, trimSpace_cons (hleft c mem_cons_self)]

/-- white space at the end goes to the last field, and to fields of its own -/
theorem splitOnP_append_blank (hright : Blank right) (s : List Char) :
    ∃ before last blank after, s.splitOnP p = before ++ [last] ∧
      (s ++ right).splitOnP p = before ++ (last ++ blank) :: after ∧ Blank blank ∧ ∀ part ∈ after, Blank part := by
  induction s with
  | nil =>
    obtain ⟨first, rest, hsplit⟩ := exists_cons_of_ne_nil (splitOnP_ne_nil p right)
    have hblank : ∀ part ∈ first :: rest, Blank part := fun part hpart c hc =>
      hright c (mem_of_mem_splitOnP (hsplit.symm ▸ hpart) c hc).1
    exact ⟨[], [], first, rest, rfl, hsplit, hblank _ mem_cons_self, fun part hpart =>
      hblank part (mem_cons_of_mem _ hpart)⟩
  | cons c s ih =>
    obtain ⟨before, last, blank, after, hs, hall, hblanks⟩ := ih
    rw [cons_append, splitOnP_cons_eq_if_modifyHead, splitOnP_cons_eq_if_modifyHead, hs, hall]
    split_ifs
    · exact ⟨[] :: before, last, blank, after, rfl, rfl, hblanks⟩
    · cases before with
      | nil => exact ⟨[], c :: last, blank, after, rfl, rfl, hblanks⟩
      | cons first before => exact ⟨(c :: first) :: before, last, blank, after, rfl, rfl, hblanks⟩

theorem words_append_blank (hright : Blank right) (s : List Char) : words p (s ++ right) = words p s := by
  obtain ⟨_, _, _, after, hs, hall, hblank, hafter⟩ := splitOnP_append_blank (p := p) hright s
  have hnone : (after.map trimSpace).filter (· ≠ []) = [] := by
    rw [filter_eq_nil_iff]
    intro part hpart
    obtain ⟨part', hin, rfl⟩ := mem_map.1 hpart
    simp [trimSpace_blank (hafter part' hin)]
  rw [words_eq, words_eq, hs, hall, map_append, map_append, filter_append, filter_append,
    map_cons, filter_cons, hnone, trimSpace_append_blank hblank, map_singleton, filter_cons,
    filter_nil]

theorem words_trimSpace (s : List Char) : words p (trimSpace s) = words p s := by
  obtain ⟨_, _, hs, hleft, hright⟩ := exists_padding s
  conv_rhs => rw [hs, words_append_blank hright, words_skip hleft]

/-- the fields of a text, part by part -/
theorem words_splitAt (s : List Char) : words (fun c => c == sep || p c) s = (splitAt sep s).flatMap (words p) := by
  rw [words_eq, splitOnP_or, splitAt_eq, map_flatMap, filter_flatMap]
  exact flatMap_congr fun part _ => (words_eq p part).symm

theorem words_parts (s : List Char) : words (fun c => c == sep || p c) s = (parts sep s).flatMap (words p) := by
  rw [words_splitAt, parts]
  induction splitAt sep s with
  | nil => rfl
  | cons part l ih =>
    rw [flatMap_cons, ih, ← words_trimSpace part, map_cons, filter_cons]
    split_ifs with hne
    · rw [flatMap_cons]
    · have hnil : trimSpace part = [] := by simpa using hne
      rw [hnil]
      rfl

theorem words_plain (hp : ∀ c, p c = true → isSpace c = true) (hword : Plain word) (hne : word ≠ []) :
    words p word = [word] := by
  have hsep : ∀ c ∈ word, p c = false := fun c hc => Bool.eq_false_iff.2 fun h =>
    absurd (hp c h) (Bool.eq_false_iff.1 (hword c hc))
  rw [words_eq, splitOnP_eq_singleton hsep, map_singleton, trimSpace_plain hword]
  simp [hne]

/-- **The two readings agree** on a text none of whose parts has white space inside. -/
theorem words_eq_parts (hp : ∀ c, p c = true → isSpace c = true) (h : ∀ part ∈ parts sep s, Plain part) :
    words (fun c => c == sep || p c) s = parts sep s := by
  rw [words_parts]
  have hone : ∀ part ∈ parts sep s, words p part = [part] := fun part hpart =>
    words_plain hp (h part hpart) (by simpa using (mem_filter.1 hpart).2)
  rw [flatMap_congr hone, flatMap_singleton']

/-- a text has at least as many fields as what is left of it when characters are taken out -/
theorem words_length_le {s' : List Char} (h : s'.Sublist s) : (words p s').length ≤ (words p s).length := by
  let full : List Char → Bool := fun part => trimSpace part ≠ []
  have hlen : ∀ s, (words p s).length = (s.splitOnP p).countP full := fun s => by
    rw [words_eq, filter_map, length_map, countP_eq_length_filter]
    rfl
  have hcons : ∀ c part, full (c :: part) = (!isSpace c || full part) := by
    intro c part
    cases hc : isSpace c with
    | true => simp [full, trimSpace_cons hc]
    | false =>
      have hne : trimSpace (c :: part) ≠ [] := fun h => by
        have hspace := trimSpace_eq_nil_iff.1 h c mem_cons_self
        rw [hc] at hspace
        cases hspace
      simp [full, hne]
  -- the fields, and those after the first, which a character in front does not reach
  let later : List Char → ℕ := fun l => (l.splitOnP p).tail.countP full
  have hstep : ∀ c l, (words p (c :: l)).length =
        (if p c then (words p l).length else if isSpace c then (words p l).length else later l + 1) ∧
      later (c :: l) = (if p c then (words p l).length else later l) ∧ later l ≤ (words p l).length ∧
      (words p l).length ≤ later l + 1 := by
    intro c l
    obtain ⟨_, _, hsplit⟩ := exists_cons_of_ne_nil (splitOnP_ne_nil p l)
    have hnil : full [] = false := rfl
    simp only [hlen, later, splitOnP_cons_eq_if_modifyHead, hsplit]
    cases p c <;> cases hs : isSpace c <;> simp [countP_cons, hcons, hnil, hs] <;> split_ifs <;> omega
  have hboth : (words p s').length ≤ (words p s).length ∧ later s' ≤ later s := by
    induction h with
    | slnil => exact ⟨le_rfl, le_rfl⟩
    | @cons l₁ l₂ c _ ih =>
      obtain ⟨hall, hlater, _, _⟩ := hstep c l₂
      have hle₁ := (hstep c l₁).2.2.1
      rw [hall, hlater]
      split_ifs <;> omega
    | @cons_cons l₁ l₂ c _ ih =>
      obtain ⟨hall, hlater, -⟩ := hstep c l₂
      obtain ⟨hall₁, hlater₁, -⟩ := hstep c l₁
      rw [hall, hlater, hall₁, hlater₁]
      split_ifs <;> omega
  exact hboth.1

end

/-- names without separators and white space are read back from the text they are joined to -/
theorem parts_joinWith {names : List (List Char)} (hne : names ≠ [])
    (h : ∀ name ∈ names, name ≠ [] ∧ Plain name ∧ sep ∉ name) : parts sep (joinWith sep names) = names := by
  rw [parts, splitAt_eq, joinWith_eq, splitOn_intercalate sep (fun name hin => (h name hin).2.2) hne]
  have htrim : names.map trimSpace = names := by
    conv_rhs => rw [← map_id names]
    exact map_congr_left fun name hin => trimSpace_plain (h name hin).2.1
  rw [htrim, filter_eq_self]
  exact fun name hin => by simpa using (h name hin).1

/-- a part has no separator -/
theorem sep_not_mem_part {s part : List Char} (h : part ∈ parts sep s) : sep ∉ part := by
  obtain ⟨_, hin, rfl⟩ := mem_map.1 (mem_filter.1 h).1
  rw [splitAt_eq] at hin
  intro hsep
  simpa using (mem_of_mem_splitOnP hin sep (mem_of_mem_trimSpace hsep)).2

end AccessPoint.Text
