/-
Slash-separated paths: cleaning and joining, as Go's path/filepath documents them for Unix.

`clean` drops empty elements and ".", and lets ".." take away the element before it; what is left has its ".." in front,
and none at all in a rooted path. `join` puts a slash between two paths and cleans the result.

- `components_clean`, `isAbs_clean`: a cleaned path has the elements that were computed, and stays rooted or not.
- `elements_join`: joining a path without ".." adds its elements at the end.
- `up_notMem_elements`: a cleaned path that is not rooted and does not start with ".." has no "..".
-/
import AccessPoint.Core.Tokens

namespace AccessPoint.Path

open Text

/-- `filepath.IsAbs` -/
def isAbs (path : List Char) : Bool := path.head? = some '/'

/-- the parent directory -/
abbrev up : List Char := ['.', '.']

/-- one more element on a stack of elements, the last one first -/
def push (rooted : Bool) (stack : List (List Char)) (part : List Char) : List (List Char) :=
  if part = [] ∨ part = ['.'] then stack
  else if part = up then
    match stack with
    | [] => if rooted then [] else [up]
    | top :: rest => if top = up then up :: top :: rest else rest
  else part :: stack

/-- the elements of a path once it is cleaned -/
def elements (path : List Char) : List (List Char) := ((splitAt '/' path).foldl (push (isAbs path)) []).reverse

def render (rooted : Bool) (parts : List (List Char)) : List Char :=
  if rooted then '/' :: joinWith '/' parts else if parts = [] then ['.'] else joinWith '/' parts

/-- `filepath.Clean` -/
def clean (path : List Char) : List Char := render (isAbs path) (elements path)

/-- `filepath.Join` of two elements; empty ones are ignored -/
def join (dir name : List Char) : List Char :=
  if dir ≠ [] then clean (dir ++ '/' :: name) else if name ≠ [] then clean name else []

/-- the components of a path as it is written -/
def components (path : List Char) : List (List Char) := (splitAt '/' path).filter fun part => part ≠ [] && part ≠ ['.']

/-! ## The stack -/

/-- a proper element of a path -/
def Part (part : List Char) : Prop := part ≠ [] ∧ part ≠ ['.'] ∧ '/' ∉ part

/-- the elements cleaning leaves, the last one first: below a parent there are only parents, and a rooted path has none
-/
structure Stacked (rooted : Bool) (stack : List (List Char)) : Prop where
  parts : ∀ part ∈ stack, Part part
  below : stack.Pairwise fun above below => above = up → below = up
  rooted : rooted = true → up ∉ stack

variable (rooted : Bool)

theorem Stacked.nil : Stacked rooted [] :=
  ⟨fun _ h => (nomatch h), List.Pairwise.nil, fun _ => List.not_mem_nil⟩

theorem Stacked.tail {rooted : Bool} {top : List Char} {rest : List (List Char)} (h : Stacked rooted (top :: rest)) :
    Stacked rooted rest :=
  ⟨fun part hin => h.parts part (List.mem_cons_of_mem top hin), (List.pairwise_cons.1 h.below).2,
    fun hr hin => h.rooted hr (List.mem_cons_of_mem top hin)⟩

theorem part_up : Part up := ⟨by decide, by decide, by decide⟩

variable {stack : List (List Char)}

theorem Stacked.push {rooted : Bool} (h : Stacked rooted stack) {part : List Char}
    (hpart : '/' ∉ part) : Stacked rooted (push rooted stack part) := by
  unfold Path.push
  by_cases hskip : part = [] ∨ part = ['.']
  · rwa [if_pos hskip]
  rw [if_neg hskip]
  by_cases hup : part = up
  · rw [if_pos hup]
    -- a parent takes away the last name, or is kept beyond the start of a relative path
    cases stack with
    | nil =>
      cases rooted with
      | true => exact Stacked.nil true
      | false =>
        refine ⟨fun part hin => ?_, List.pairwise_singleton _ _, nofun⟩
        rw [List.mem_singleton.1 hin]
        exact part_up
    | cons top rest =>
      dsimp only
      split_ifs with htop
      · have hbelow : ∀ part ∈ top :: rest, part = up := by
          intro part hin
          rcases List.mem_cons.1 hin with rfl | hin
          · exact htop
          · exact (List.pairwise_cons.1 h.below).1 part hin htop
        refine ⟨fun part hin => ?_, List.pairwise_cons.2 ⟨fun part hin _ => hbelow part hin, h.below⟩, fun hr => ?_⟩
        · rcases List.mem_cons.1 hin with rfl | hin
          · exact part_up
          · exact h.parts part hin
        · exact absurd (htop ▸ List.mem_cons_self) (h.rooted hr)
      · exact h.tail
  · rw [if_neg hup]
    refine ⟨fun p hin => ?_, List.pairwise_cons.2 ⟨fun _ _ heq => absurd heq hup, h.below⟩, fun hr hin => ?_⟩
    · rcases List.mem_cons.1 hin with rfl | hin
      · exact ⟨fun he => hskip (.inl he), fun he => hskip (.inr he), hpart⟩
      · exact h.parts p hin
    · rcases List.mem_cons.1 hin with he | hin
      · exact hup he.symm
      · exact h.rooted hr hin

theorem slash_notMem_splitAt {path part : List Char} (h : part ∈ splitAt '/' path) : '/' ∉ part := by
  rw [splitAt_eq] at h
  intro hin
  have hno := (mem_of_mem_splitOnP h '/' hin).2
  exact absurd hno (by decide)

/-- cleaning leaves a proper stack -/
theorem elements_stacked (path : List Char) : Stacked (isAbs path) (elements path).reverse := by
  have hfold : ∀ (parts : List (List Char)) stack, (∀ part ∈ parts, '/' ∉ part) → Stacked (isAbs path) stack →
      Stacked (isAbs path) (parts.foldl (push (isAbs path)) stack) := by
    intro parts
    induction parts with
    | nil => exact fun _ _ h => h
    | cons part parts ih =>
      intro stack hparts h
      exact ih _ (fun p hp => hparts p (List.mem_cons_of_mem part hp)) (h.push (hparts part List.mem_cons_self))
  rw [elements, List.reverse_reverse]
  exact hfold _ [] (fun part hin => slash_notMem_splitAt hin) (Stacked.nil _)

theorem elements_part {path part : List Char} (h : part ∈ elements path) : Part part :=
  (elements_stacked path).parts part (List.mem_reverse.2 h)

variable {parts : List (List Char)}

/-- names are put on the stack as they come -/
theorem foldl_push_names (h : up ∉ parts) (stack : List (List Char)) :
    parts.foldl (push rooted) stack = (parts.filter fun part => part ≠ [] && part ≠ ['.']).reverse ++ stack := by
  induction parts generalizing stack with
  | nil => rfl
  | cons part parts ih =>
    have hup : part ≠ up := fun he => h (he ▸ List.mem_cons_self)
    rw [List.foldl_cons, ih fun hin => h (List.mem_cons_of_mem part hin), List.filter_cons]
    unfold push
    by_cases hskip : part = [] ∨ part = ['.']
    · have hno : ¬ (part ≠ [] && part ≠ ['.']) = true := by
        rcases hskip with rfl | rfl <;> decide
      rw [if_pos hskip, if_neg hno]
    · have hyes : (part ≠ [] && part ≠ ['.']) = true := by
        simpa [not_or] using hskip
      rw [if_neg hskip, if_neg hup, if_pos hyes, List.reverse_cons, List.append_assoc]
      rfl

/-! ## Rendering -/

theorem splitAt_joinWith (hne : parts ≠ []) (h : ∀ part ∈ parts, '/' ∉ part) :
    splitAt '/' (joinWith '/' parts) = parts := by
  rw [splitAt_eq, joinWith_eq]
  exact List.splitOn_intercalate '/' h hne

/-- the text has the components it was made of -/
theorem components_render {rooted : Bool} (h : ∀ part ∈ parts, Part part) :
    components (render rooted parts) = parts := by
  have hall : parts.filter (fun part => part ≠ [] && part ≠ ['.']) = parts := by
    rw [List.filter_eq_self]
    intro part hin
    obtain ⟨hnil, hdot, -⟩ := h part hin
    simp [hnil, hdot]
  have hsplit : parts ≠ [] → splitAt '/' (joinWith '/' parts) = parts := fun hne =>
    splitAt_joinWith hne fun part hin => (h part hin).2.2
  unfold components render
  cases rooted with
  | true =>
    rw [if_pos rfl, splitAt, if_pos rfl, List.filter_cons]
    by_cases hne : parts = []
    · subst hne
      rfl
    · rw [hsplit hne]
      simpa using hall
  | false =>
    rw [if_neg Bool.false_ne_true]
    split_ifs with hne
    · subst hne
      rfl
    · rw [hsplit hne, hall]

theorem isAbs_render {rooted : Bool} (h : ∀ part ∈ parts, Part part) : isAbs (render rooted parts) = rooted := by
  unfold render
  cases rooted with
  | true => rfl
  | false =>
    rw [if_neg Bool.false_ne_true]
    cases parts with
    | nil => rfl
    | cons part parts =>
      obtain ⟨hnil, -, hslash⟩ := h part List.mem_cons_self
      obtain ⟨c, _, rfl⟩ := List.exists_cons_of_ne_nil hnil
      have hc : c ≠ '/' := fun he => hslash (he ▸ List.mem_cons_self)
      rw [if_neg (List.cons_ne_nil _ _), joinWith_eq]
      cases parts with
      | nil => simpa [isAbs, List.intercalate] using hc
      | cons => simpa [isAbs, List.intercalate, List.intersperse] using hc

/-- **A cleaned path has the elements that were computed.** -/
theorem components_clean (path : List Char) : components (clean path) = elements path :=
  components_render fun _ => elements_part

theorem isAbs_clean (path : List Char) : isAbs (clean path) = isAbs path :=
  isAbs_render fun _ => elements_part

theorem clean_ne_nil (path : List Char) : clean path ≠ [] := by
  unfold clean render
  split_ifs with hrooted hempty
  · exact List.cons_ne_nil _ _
  · exact List.cons_ne_nil _ _
  · obtain ⟨part, parts, helem⟩ := List.exists_cons_of_ne_nil hempty
    have hpart : part ≠ [] := (elements_part (helem ▸ List.mem_cons_self)).1
    rw [helem]
    cases parts with
    | nil => exact hpart
    | cons => exact List.append_ne_nil_of_left_ne_nil hpart _

/-! ## Paths without parents -/

variable {path : List Char}

/-- a parent anywhere means a parent in front -/
theorem up_head (h : up ∈ elements path) : ∃ rest, elements path = up :: rest := by
  have hstack := elements_stacked path
  cases helem : elements path with
  | nil => rw [helem] at h; cases h
  | cons first rest =>
    rw [helem] at h hstack
    refine ⟨rest, ?_⟩
    rcases List.mem_cons.1 h with rfl | hin
    · rfl
    · have hbelow := hstack.below
      rw [List.reverse_cons, List.pairwise_append] at hbelow
      rw [hbelow.2.2 up (List.mem_reverse.2 hin) first (List.mem_singleton_self first) rfl]

/-- **A cleaned path that is not rooted and does not start with ".." has no "..".** -/
theorem up_notMem_elements (habs : isAbs (clean path) = false) (hne : clean path ≠ up)
    (hstart : ¬ (up ++ ['/']) <+: clean path) : up ∉ elements path := by
  intro hin
  obtain ⟨rest, helem⟩ := up_head hin
  rw [isAbs_clean] at habs
  have hclean : clean path = joinWith '/' (up :: rest) := by
    rw [clean, render, habs, helem, if_neg Bool.false_ne_true, if_neg (List.cons_ne_nil _ _)]
  cases rest with
  | nil => exact hne hclean
  | cons part rest => exact hstart ⟨joinWith '/' (part :: rest), by rw [hclean]; rfl⟩

/-- the elements of a path that is written without parents -/
theorem elements_written (h : up ∉ components path) (stack : List (List Char)) (rooted : Bool) :
    (splitAt '/' path).foldl (push rooted) stack = (components path).reverse ++ stack := by
  refine foldl_push_names rooted (fun hin => h ?_) stack
  exact List.mem_filter.2 ⟨hin, by decide⟩

/-- **Joining a cleaned path without parents adds its elements.** -/
theorem elements_join {dir name : List Char} (hdir : dir ≠ []) (hname : up ∉ elements name) :
    elements (dir ++ '/' :: clean name) = elements dir ++ elements name := by
  have habs : isAbs (dir ++ '/' :: clean name) = isAbs dir := by
    obtain ⟨_, _, rfl⟩ := List.exists_cons_of_ne_nil hdir
    rfl
  rw [elements, splitAt_sep, List.foldl_append, habs, elements_written (by rwa [components_clean]), components_clean,
    List.reverse_append, List.reverse_reverse]
  rfl

variable {name : List Char}

theorem elements_clean (hname : up ∉ elements name) : elements (clean name) = elements name := by
  rw [elements, elements_written (by rwa [components_clean]), components_clean, List.append_nil, List.reverse_reverse]

variable (dir : List Char)

/-- **A path joined to a directory stays under it**, if it is not rooted and does not start with "..". -/
theorem join_under (habs : isAbs (clean name) = false) (hne : clean name ≠ up)
    (hstart : ¬ (up ++ ['/']) <+: clean name) :
    isAbs (join dir (clean name)) = isAbs (clean dir) ∧
      ∃ rest, components (join dir (clean name)) = components (clean dir) ++ rest ∧ up ∉ rest := by
  have hname := up_notMem_elements habs hne hstart
  unfold join
  by_cases hdir : dir = []
  · rw [if_neg (not_not.2 hdir), if_pos (clean_ne_nil name)]
    subst hdir
    refine ⟨by rw [isAbs_clean, habs]; rfl, elements name, ?_, hname⟩
    rw [components_clean, elements_clean hname]
    rfl
  · rw [if_pos hdir]
    refine ⟨?_, elements name, ?_, hname⟩
    · rw [isAbs_clean, isAbs_clean]
      obtain ⟨_, _, rfl⟩ := List.exists_cons_of_ne_nil hdir
      rfl
    · rw [components_clean, components_clean, elements_join hdir hname]

/-! ## Cleaning twice, joining several elements -/

/-- a proper stack is built again from its own elements -/
theorem Stacked.rebuild {rooted : Bool} (h : Stacked rooted stack) :
    stack.reverse.foldl (Path.push rooted) [] = stack := by
  induction stack with
  | nil => rfl
  | cons top rest ih =>
    obtain ⟨hnil, hdot, -⟩ := h.parts top List.mem_cons_self
    rw [List.reverse_cons, List.foldl_append, ih h.tail, List.foldl_cons, List.foldl_nil]
    unfold Path.push
    rw [if_neg (not_or.2 ⟨hnil, hdot⟩)]
    by_cases hup : top = up
    · rw [if_pos hup]
      cases rest with
      | nil =>
        have hrel : ¬ rooted = true := fun hr => h.rooted hr (hup ▸ List.mem_cons_self)
        simp [hrel, hup]
      | cons next =>
        have hnext : next = up := (List.pairwise_cons.1 h.below).1 next List.mem_cons_self hup
        simp [hnext, hup]
    · rw [if_neg hup]

theorem foldl_push_proper (parts stack : List (List Char)) :
    parts.foldl (push rooted) stack =
      (parts.filter fun part => part ≠ [] && part ≠ ['.']).foldl (push rooted) stack := by
  induction parts generalizing stack with
  | nil => rfl
  | cons part parts ih =>
    rw [List.foldl_cons, ih, List.filter_cons]
    by_cases hskip : part = [] ∨ part = ['.']
    · have hno : ¬ (part ≠ [] && part ≠ ['.']) = true := by rcases hskip with rfl | rfl <;> decide
      have hpush : push rooted stack part = stack := by
        unfold push
        rw [if_pos hskip]
      rw [if_neg hno, hpush]
    · have hyes : (part ≠ [] && part ≠ ['.']) = true := by simpa [not_or] using hskip
      rw [if_pos hyes, List.foldl_cons]

theorem elements_of_clean (path : List Char) : elements (clean path) = elements path := by
  rw [elements, foldl_push_proper, isAbs_clean]
  change ((components (clean path)).foldl (push (isAbs path)) []).reverse = elements path
  rw [components_clean]
  have hrebuild := (elements_stacked path).rebuild
  rw [List.reverse_reverse] at hrebuild
  rw [hrebuild, List.reverse_reverse]

/-- **Cleaning is idempotent.** -/
theorem clean_clean (path : List Char) : clean (clean path) = clean path := by
  rw [clean, elements_of_clean, isAbs_clean]
  rfl

/-- `filepath.Join`; empty elements are ignored -/
def joinAll (parts : List (List Char)) : List Char :=
  let parts := parts.filter (· ≠ [])
  if parts = [] then [] else clean (joinWith '/' parts)

/-- what `joinAll` answers is as cleaning leaves it -/
theorem elements_joinAll (parts : List (List Char)) : elements (joinAll parts) = components (joinAll parts) := by
  unfold joinAll
  dsimp only
  split_ifs with hnone
  · rfl
  · rw [elements_of_clean, components_clean]

/-- a name: one element that stays where it is put -/
def Name (name : List Char) : Prop := Part name ∧ name ≠ up

variable {names : List (List Char)}

theorem components_joined (hne : names ≠ []) (h : ∀ name ∈ names, Name name) :
    components (joinWith '/' names) = names := by
  rw [components, splitAt_joinWith hne fun name hin => (h name hin).1.2.2, List.filter_eq_self]
  intro name hin
  obtain ⟨⟨hnil, hdot, -⟩, -⟩ := h name hin
  simp [hnil, hdot]

theorem isAbs_append {dir : List Char} (h : dir ≠ []) (s : List Char) : isAbs (dir ++ s) = isAbs dir := by
  obtain ⟨_, _, rfl⟩ := List.exists_cons_of_ne_nil h
  rfl

/-- what is written after a slash, without parents, is added to the elements -/
theorem elements_append {s : List Char} (h : up ∉ components s) :
    elements (dir ++ '/' :: s) = elements dir ++ components s := by
  by_cases hdir : dir = []
  · subst hdir
    rw [elements, List.nil_append, splitAt, if_pos rfl, List.foldl_cons, elements_written h]
    simp [push, elements, splitAt]
  · rw [elements, splitAt_sep, List.foldl_append, isAbs_append hdir, elements_written h, List.reverse_append,
      List.reverse_reverse]
    rfl

/-- a cleaned path without parents, joined -/
theorem elements_joined (h : up ∉ elements name) :
    elements (join dir (clean name)) = elements dir ++ elements name := by
  unfold join
  by_cases hdir : dir = []
  · rw [if_neg (not_not.2 hdir), if_pos (clean_ne_nil name), elements_of_clean, elements_of_clean, hdir]
    rfl
  · rw [if_pos hdir, elements_of_clean, elements_join hdir h]

/-- the parent of a directory -/
theorem elements_join_up {dir last : List Char} {above : List (List Char)} (h : elements dir = above ++ [last])
    (hlast : last ≠ up) :
    elements (join dir up) = above := by
  have hdir : dir ≠ [] := by
    intro he
    subst he
    have hlen := congrArg List.length h
    rw [List.length_append] at hlen
    exact absurd hlen (by simp [elements, splitAt, push])
  have hstack : (splitAt '/' dir).foldl (push (isAbs dir)) [] = last :: above.reverse := by
    have hrev := congrArg List.reverse h
    rw [elements, List.reverse_reverse, List.reverse_append] at hrev
    exact hrev
  rw [join, if_pos hdir, elements_of_clean, elements, splitAt_sep, List.foldl_append, isAbs_append hdir, hstack]
  simp [splitAt, push, hlast]

/-- **Names joined to a directory are added to its elements.** -/
theorem joinAll_names (hne : names ≠ []) (h : ∀ name ∈ names, Name name) :
    isAbs (joinAll (dir :: names)) = isAbs dir ∧ components (joinAll (dir :: names)) = elements dir ++ names := by
  have hkept : names.filter (· ≠ []) = names := by
    rw [List.filter_eq_self]
    intro name hin
    simpa using (h name hin).1.1
  have hup : up ∉ components (joinWith '/' names) := by
    rw [components_joined hne h]
    exact fun hin => (h up hin).2 rfl
  have hwritten := elements_written hup
  rw [components_joined hne h] at hwritten
  have hrel : isAbs (joinWith '/' names) = false := by
    have hrender : isAbs (render false names) = false := isAbs_render fun name hin => (h name hin).1
    rwa [render, if_neg Bool.false_ne_true, if_neg hne] at hrender
  unfold joinAll
  rw [List.filter_cons, hkept]
  by_cases hdir : dir = []
  · subst hdir
    have hskip : ¬ decide (([] : List Char) ≠ []) = true := by decide
    rw [if_neg hskip, if_neg hne, isAbs_clean, components_clean, elements, hwritten, hrel]
    refine ⟨rfl, ?_⟩
    rw [List.append_nil, List.reverse_reverse]
    rfl
  · have hkeep : decide (dir ≠ []) = true := by simpa using hdir
    obtain ⟨name, rest, rfl⟩ := List.exists_cons_of_ne_nil hne
    have hjoin : joinWith '/' (dir :: name :: rest) = dir ++ '/' :: joinWith '/' (name :: rest) := rfl
    have habs : isAbs (dir ++ '/' :: joinWith '/' (name :: rest)) = isAbs dir := by
      obtain ⟨_, _, rfl⟩ := List.exists_cons_of_ne_nil hdir
      rfl
    rw [if_pos hkeep, if_neg (List.cons_ne_nil _ _), isAbs_clean, components_clean, hjoin, habs]
    refine ⟨rfl, ?_⟩
    rw [elements, habs, splitAt_sep, List.foldl_append, hwritten, List.reverse_append, List.reverse_reverse]
    rfl

end AccessPoint.Path
