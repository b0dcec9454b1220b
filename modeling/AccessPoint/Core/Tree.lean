/-
A tree of directories and files without links: a map from locations, the names from the root on, to nodes.

`mkdirAll` makes a directory and those above it, and fails when a file stands in the way. `store` writes a file after
making the directory it goes to. Two disks are the `Same` at a location when they agree on what is there and below, and
no file stands above it.

- `Same.mkdirAll`, `Same.store`: an operation at the location or below it does the same to both.
- `Same.mkdirAll_elsewhere`, `Same.store_elsewhere`: an operation elsewhere changes nothing there.
- `store_keeps`: a file stays until its own location is written.
-/
import AccessPoint.Core.KeyMap

namespace AccessPoint.Tree

open List

variable {ν F : Type} [DecidableEq ν]

inductive Node (F : Type) where
  | dir
  | file (f : F)

abbrev Disk (ν F : Type) := KeyMap (List ν) (Node F)

/-- the file at a location -/
def fileAt (d : Disk ν F) (loc : List ν) : Option F :=
  match d.lookup loc with
  | some (.file f) => some f
  | _ => none

/-- the root is always there -/
def isDir (d : Disk ν F) (loc : List ν) : Bool :=
  if loc = [] then true
  else match d.lookup loc with
    | some .dir => true
    | _ => false

/-- `os.Mkdir`, content with a directory that is there -/
def mkdir (d : Disk ν F) (loc : List ν) : Option (Disk ν F) :=
  match d.lookup loc with
  | none => some (d.insert loc .dir)
  | some .dir => some d
  | some (.file _) => none

/-- a location and those above it, the root left out, from the top -/
def wayTo (loc : List ν) : List (List ν) := loc.inits.filter (· ≠ [])

/-- `os.MkdirAll` -/
def mkdirAll (d : Disk ν F) (loc : List ν) : Option (Disk ν F) := (wayTo loc).foldlM mkdir d

/-- `os.OpenFile` with O_CREATE, O_TRUNC and O_WRONLY, and the write; what is written may depend on the file that was
there -/
def writeFile (d : Disk ν F) (loc : List ν) (f : Option F → F) : Option (Disk ν F) :=
  if isDir d loc ∨ ¬ isDir d loc.dropLast then none else some (d.insert loc (.file (f (fileAt d loc))))

/-- a file, and the directory it goes to -/
def store (d : Disk ν F) (loc : List ν) (f : Option F → F) : Option (Disk ν F) :=
  (mkdirAll d loc.dropLast).bind fun d => writeFile d loc f

/-! ## What the calls do -/

omit [DecidableEq ν] in
theorem mem_wayTo {p loc : List ν} : p ∈ wayTo loc ↔ p ≠ [] ∧ p <+: loc := by
  simp [wayTo, mem_filter, mem_inits, and_comm]

variable {d d' : Disk ν F} {loc : List ν}

theorem mkdir_eq_some (h : mkdir d loc = some d') :
    fileAt d loc = none ∧ ∀ x, d'.lookup x = if x = loc then some .dir else d.lookup x := by
  unfold mkdir at h
  unfold fileAt
  cases hnode : d.lookup loc with
  | none =>
    rw [hnode] at h
    obtain rfl := Option.some.inj h
    exact ⟨rfl, fun x => KeyMap.lookup_insert_ite d loc x .dir⟩
  | some node =>
    rw [hnode] at h
    cases node with
    | file => cases h
    | dir =>
      obtain rfl := Option.some.inj h
      refine ⟨rfl, fun x => ?_⟩
      split_ifs with hx
      · rw [hx, hnode]
      · rfl

theorem mkdir_eq_none {d : Disk ν F} (h : mkdir d loc = none) : ∃ f, fileAt d loc = some f := by
  unfold mkdir at h
  unfold fileAt
  cases hnode : d.lookup loc with
  | none => rw [hnode] at h; cases h
  | some node =>
    rw [hnode] at h
    cases node with
    | dir => cases h
    | file f => exact ⟨f, rfl⟩

theorem lookup_of_fileAt {d : Disk ν F} {f : F} (h : fileAt d loc = some f) : d.lookup loc = some (.file f) := by
  unfold fileAt at h
  cases hnode : d.lookup loc with
  | none => rw [hnode] at h; cases h
  | some node =>
    rw [hnode] at h
    cases node with
    | dir => cases h
    | file => rw [Option.some.inj h]

theorem fileAt_congr (h : d.lookup loc = d'.lookup loc) : fileAt d loc = fileAt d' loc := by
  unfold fileAt
  rw [h]

theorem fileAt_dir {d : Disk ν F} (h : d.lookup loc = some .dir) : fileAt d loc = none := by
  unfold fileAt
  rw [h]

theorem foldlM_mkdir_some {ps : List (List ν)} (h : ps.foldlM mkdir d = some d') :
    (∀ p ∈ ps, fileAt d p = none) ∧ ∀ x, d'.lookup x = if x ∈ ps then some .dir else d.lookup x := by
  induction ps generalizing d with
  | nil =>
    obtain rfl := Option.some.inj h
    exact ⟨fun p hp => (by cases hp), fun x => rfl⟩
  | cons p ps ih =>
    rw [foldlM_cons] at h
    obtain ⟨_, h1, h2⟩ := Option.bind_eq_some_iff.1 h
    obtain ⟨hfree, hd1⟩ := mkdir_eq_some h1
    obtain ⟨hfrees, hd'⟩ := ih h2
    refine ⟨fun q hq => ?_, fun x => ?_⟩
    · rcases mem_cons.1 hq with rfl | hq
      · exact hfree
      · by_cases hqp : q = p
        · rw [hqp]; exact hfree
        · rw [← hfrees q hq]
          exact fileAt_congr (by rw [hd1, if_neg hqp])
    · rw [hd', hd1]
      by_cases hx : x ∈ ps
      · rw [if_pos hx, if_pos (mem_cons_of_mem p hx)]
      · by_cases hxp : x = p
        · rw [if_neg hx, if_pos hxp, if_pos (hxp ▸ mem_cons_self)]
        · rw [if_neg hx, if_neg hxp, if_neg (by simp [hx, hxp])]

theorem foldlM_mkdir_isSome {ps : List (List ν)} {d : Disk ν F} (h : ∀ p ∈ ps, fileAt d p = none) :
    ∃ d', ps.foldlM mkdir d = some d' := by
  induction ps generalizing d with
  | nil => exact ⟨d, rfl⟩
  | cons p ps ih =>
    rw [foldlM_cons]
    cases hp : mkdir d p with
    | none =>
      obtain ⟨_, hf⟩ := mkdir_eq_none hp
      rw [h p mem_cons_self] at hf
      cases hf
    | some d1 =>
      apply ih
      intro q hq
      obtain ⟨-, hd1⟩ := mkdir_eq_some hp
      by_cases hqp : q = p
      · exact fileAt_dir (by rw [hd1, if_pos hqp])
      · rw [fileAt_congr (show d1.lookup q = d.lookup q by rw [hd1, if_neg hqp])]
        exact h q (mem_cons_of_mem p hq)

/-- no file on the way to a location -/
def Free (d : Disk ν F) (loc : List ν) : Prop := ∀ p ∈ wayTo loc, fileAt d p = none

theorem mkdirAll_some (h : mkdirAll d loc = some d') :
    Free d loc ∧ ∀ x, d'.lookup x = if x ≠ [] ∧ x <+: loc then some .dir else d.lookup x := by
  obtain ⟨hfree, hd'⟩ := foldlM_mkdir_some h
  refine ⟨hfree, fun x => ?_⟩
  rw [hd']
  by_cases hx : x ∈ wayTo loc
  · rw [if_pos hx, if_pos (mem_wayTo.1 hx)]
  · rw [if_neg hx, if_neg fun hx' => hx (mem_wayTo.2 hx')]

theorem mkdirAll_isSome {d : Disk ν F} (h : Free d loc) : ∃ d', mkdirAll d loc = some d' :=
  foldlM_mkdir_isSome h

omit [DecidableEq ν] in
theorem notMem_wayTo_parent (hne : loc ≠ []) : ¬ (loc ≠ [] ∧ loc <+: loc.dropLast) := by
  intro h
  have hlen := h.2.length_le
  have hpos := length_pos_iff.2 hne
  rw [length_dropLast] at hlen
  omega

/-- when a file can be stored -/
structure Storable (d : Disk ν F) (loc : List ν) : Prop where
  ne_root : loc ≠ []
  not_dir : d.lookup loc ≠ some .dir
  free : Free d loc.dropLast

theorem store_some {f : Option F → F} (h : store d loc f = some d') :
    Storable d loc ∧ ∀ x, d'.lookup x = if x = loc then some (.file (f (fileAt d loc))) else
      if x ≠ [] ∧ x <+: loc.dropLast then some .dir else d.lookup x := by
  obtain ⟨d1, h1, h2⟩ := Option.bind_eq_some_iff.1 h
  obtain ⟨hfree, hd1⟩ := mkdirAll_some h1
  unfold writeFile at h2
  split_ifs at h2 with hbad
  obtain rfl := Option.some.inj h2
  rw [not_or, not_not] at hbad
  obtain ⟨hnot, hparent⟩ := hbad
  have hne : loc ≠ [] := by
    intro he
    subst he
    exact hnot hparent
  have hsame : d1.lookup loc = d.lookup loc := by rw [hd1, if_neg (notMem_wayTo_parent hne)]
  refine ⟨⟨hne, fun hdir => hnot ?_, hfree⟩, fun x => ?_⟩
  · unfold isDir
    rw [if_neg hne, hsame, hdir]
  · rw [KeyMap.lookup_insert_ite, fileAt_congr hsame, hd1]

theorem store_isSome {d : Disk ν F} (f : Option F → F) (h : Storable d loc) : ∃ d', store d loc f = some d' := by
  obtain ⟨d1, h1⟩ := mkdirAll_isSome h.free
  obtain ⟨-, hd1⟩ := mkdirAll_some h1
  have hsame : d1.lookup loc = d.lookup loc := by rw [hd1, if_neg (notMem_wayTo_parent h.ne_root)]
  have hnot : ¬ isDir d1 loc = true := by
    unfold isDir
    rw [if_neg h.ne_root, hsame]
    cases hnode : d.lookup loc with
    | none => exact Bool.false_ne_true
    | some node =>
      cases node with
      | dir => exact absurd hnode h.not_dir
      | file => exact Bool.false_ne_true
  have hparent : isDir d1 loc.dropLast = true := by
    unfold isDir
    split_ifs with hroot
    · rfl
    · rw [hd1, if_pos ⟨hroot, prefix_rfl⟩]
  refine ⟨d1.insert loc (.file (f (fileAt d1 loc))), ?_⟩
  rw [store, h1, Option.bind_some, writeFile, if_neg (not_or.2 ⟨hnot, not_not.2 hparent⟩)]

/-! ## One location and what is below it -/

/-- no file stands above a location -/
def Clear (base : List ν) (d : Disk ν F) : Prop := ∀ p, p <+: base → p ≠ base → fileAt d p = none

/-- two disks that nothing at a location or below it tells apart -/
structure Same (base : List ν) (d d' : Disk ν F) : Prop where
  below : ∀ loc, base <+: loc → d.lookup loc = d'.lookup loc
  clear : Clear base d
  clear' : Clear base d'

theorem Same.refl {base : List ν} {d : Disk ν F} (h : Clear base d) : Same base d d := ⟨fun _ _ => rfl, h, h⟩

theorem Same.symm {base : List ν} (h : Same base d d') : Same base d' d :=
  ⟨fun loc hloc => (h.below loc hloc).symm, h.clear', h.clear⟩

/-- what stands on the way to a location below the base is above the base, where there is no file, or below it -/
theorem Same.fileAt {base loc p : List ν} (h : Same base d d') (hloc : base <+: loc) (hp : p <+: loc) :
    Tree.fileAt d p = Tree.fileAt d' p := by
  by_cases hbelow : base <+: p
  · exact fileAt_congr (h.below p hbelow)
  · have habove : p <+: base := (List.prefix_or_prefix_of_prefix hp hloc).resolve_right hbelow
    have hne : p ≠ base := fun he => hbelow (he ▸ prefix_rfl)
    rw [h.clear p habove hne, h.clear' p habove hne]

theorem Same.free {base loc : List ν} (h : Same base d d') (hloc : base <+: loc) {way : List ν}
    (hway : way <+: loc) (hfree : Free d way) : Free d' way := by
  intro p hp
  rw [← h.fileAt hloc ((mem_wayTo.1 hp).2.trans hway)]
  exact hfree p hp

theorem Clear.mkdirAll {base loc : List ν} {d : Disk ν F} (h : Clear base d) :
    Clear base ((mkdirAll d loc).getD d) := by
  cases hmade : Tree.mkdirAll d loc with
  | none => exact h
  | some d' =>
    obtain ⟨-, hd'⟩ := mkdirAll_some hmade
    intro p hp hne
    rw [Option.getD_some]
    by_cases hon : p ≠ [] ∧ p <+: loc
    · exact fileAt_dir (by rw [hd', if_pos hon])
    · rw [fileAt_congr (show d'.lookup p = d.lookup p by rw [hd', if_neg hon])]
      exact h p hp hne

theorem Clear.store {base loc : List ν} {d : Disk ν F} (h : Clear base d) (f : Option F → F)
    (hloc : loc <+: base → loc = base) :
    Clear base ((store d loc f).getD d) := by
  cases hstored : Tree.store d loc f with
  | none => exact h
  | some d' =>
    obtain ⟨-, hd'⟩ := store_some hstored
    intro p hp hne
    rw [Option.getD_some]
    have hpl : p ≠ loc := fun he => hne (he ▸ hloc (he ▸ hp))
    by_cases hon : p ≠ [] ∧ p <+: loc.dropLast
    · exact fileAt_dir (by rw [hd', if_neg hpl, if_pos hon])
    · rw [fileAt_congr (show d'.lookup p = d.lookup p by rw [hd', if_neg hpl, if_neg hon])]
      exact h p hp hne

/-- **A directory made at the location or below it is made on both disks.** -/
theorem Same.mkdirAll {base loc : List ν} (h : Same base d d') (hloc : base <+: loc) :
    Same base ((mkdirAll d loc).getD d) ((mkdirAll d' loc).getD d') := by
  refine ⟨?_, h.clear.mkdirAll, h.clear'.mkdirAll⟩
  cases hmade : Tree.mkdirAll d loc with
  | some =>
    obtain ⟨hfree, he⟩ := mkdirAll_some hmade
    obtain ⟨_, hmade'⟩ := mkdirAll_isSome (h.free hloc prefix_rfl hfree)
    intro x hx
    rw [hmade', Option.getD_some, Option.getD_some, he, (mkdirAll_some hmade').2, h.below x hx]
  | none =>
    cases hmade' : Tree.mkdirAll d' loc with
    | none => exact h.below
    | some =>
      obtain ⟨_, hyes⟩ := mkdirAll_isSome (h.symm.free hloc prefix_rfl (mkdirAll_some hmade').1)
      rw [hmade] at hyes
      cases hyes

theorem Same.storable {base loc : List ν} (h : Same base d d') (hloc : base <+: loc) (hs : Storable d loc) :
    Storable d' loc :=
  ⟨hs.ne_root, fun hdir => hs.not_dir (by rw [h.below loc hloc, hdir]), h.free hloc (List.dropLast_prefix loc) hs.free⟩

/-- **A file stored at the location or below it is stored on both disks.** -/
theorem Same.store {base loc : List ν} (h : Same base d d') (f : Option F → F) (hloc : base <+: loc) :
    Same base ((store d loc f).getD d) ((store d' loc f).getD d') := by
  have hup : loc <+: base → loc = base := fun hup => hup.eq_of_length_le hloc.length_le
  refine ⟨?_, h.clear.store f hup, h.clear'.store f hup⟩
  cases hstored : Tree.store d loc f with
  | some =>
    obtain ⟨hs, he⟩ := store_some hstored
    obtain ⟨_, hstored'⟩ := store_isSome f (h.storable hloc hs)
    intro x hx
    rw [hstored', Option.getD_some, Option.getD_some, he, (store_some hstored').2, h.below x hx,
      h.fileAt hloc prefix_rfl]
  | none =>
    cases hstored' : Tree.store d' loc f with
    | none => exact h.below
    | some =>
      obtain ⟨_, hyes⟩ := store_isSome f (h.symm.storable hloc (store_some hstored').1)
      rw [hstored] at hyes
      cases hyes

/-- **A directory made elsewhere changes nothing at the location.** -/
theorem Same.mkdirAll_elsewhere {base loc : List ν} (h : Same base d d') (hloc : ¬ base <+: loc) :
    Same base ((Tree.mkdirAll d loc).getD d) d' := by
  refine ⟨fun x hx => ?_, h.clear.mkdirAll, h.clear'⟩
  rw [← h.below x hx]
  cases hmade : Tree.mkdirAll d loc with
  | none => rfl
  | some => rw [Option.getD_some, (mkdirAll_some hmade).2, if_neg fun hon => hloc (hx.trans hon.2)]

/-- **A file stored elsewhere changes nothing at the location**, if it does not stand above it. -/
theorem Same.store_elsewhere {base loc : List ν} (h : Same base d d') (f : Option F → F)
    (hloc : ¬ base <+: loc) (hup : ¬ loc <+: base) : Same base ((Tree.store d loc f).getD d) d' := by
  refine ⟨fun x hx => ?_, h.clear.store f fun hl => absurd hl hup, h.clear'⟩
  rw [← h.below x hx]
  cases hstored : Tree.store d loc f with
  | none => rfl
  | some =>
    have hxl : x ≠ loc := fun he => hloc (he ▸ hx)
    have hon : ¬ (x ≠ [] ∧ x <+: loc.dropLast) := fun hon => hloc (hx.trans (hon.2.trans (List.dropLast_prefix loc)))
    rw [Option.getD_some, (store_some hstored).2, if_neg hxl, if_neg hon]

/-! ## Files stay -/

theorem mkdirAll_keeps {d : Disk ν F} {loc x : List ν} {f : F} (h : fileAt d x = some f) :
    fileAt ((mkdirAll d loc).getD d) x = some f := by
  cases hmade : mkdirAll d loc with
  | none => exact h
  | some e =>
    obtain ⟨hfree, he⟩ := mkdirAll_some hmade
    have hon : ¬ (x ≠ [] ∧ x <+: loc) := by
      intro hon
      rw [hfree x (mem_wayTo.2 hon)] at h
      cases h
    rw [Option.getD_some, fileAt_congr (show e.lookup x = d.lookup x by rw [he, if_neg hon]), h]

/-- **A file stays until its own location is written.** -/
theorem store_keeps {d : Disk ν F} {loc x : List ν} {f : F} (g : Option F → F) (h : fileAt d x = some f)
    (hne : x ≠ loc) :
    fileAt ((store d loc g).getD d) x = some f := by
  cases hstored : store d loc g with
  | none => exact h
  | some e =>
    obtain ⟨hs, he⟩ := store_some hstored
    have hon : ¬ (x ≠ [] ∧ x <+: loc.dropLast) := by
      intro hon
      rw [hs.free x (mem_wayTo.2 hon)] at h
      cases h
    rw [Option.getD_some, fileAt_congr (show e.lookup x = d.lookup x by rw [he, if_neg hne, if_neg hon]), h]

/-- nothing goes away -/
theorem mkdirAll_grows {d : Disk ν F} {loc x : List ν} (h : (d.lookup x).isSome) :
    (((mkdirAll d loc).getD d).lookup x).isSome := by
  cases hmade : mkdirAll d loc with
  | none => exact h
  | some =>
    rw [Option.getD_some, (mkdirAll_some hmade).2]
    split_ifs
    · rfl
    · exact h

theorem store_grows {d : Disk ν F} {loc x : List ν} (g : Option F → F) (h : (d.lookup x).isSome) :
    (((store d loc g).getD d).lookup x).isSome := by
  cases hstored : store d loc g with
  | none => exact h
  | some =>
    rw [Option.getD_some, (store_some hstored).2]
    split_ifs
    · rfl
    · rfl
    · exact h

/-- a file and all that is above it -/
theorem store_way {loc x : List ν} {g : Option F → F} (h : store d loc g = some d') (hne : x ≠ [])
    (hx : x <+: loc) : (d'.lookup x).isSome := by
  obtain ⟨hs, hd'⟩ := store_some h
  rw [hd']
  split_ifs with hself hway
  · rfl
  · rfl
  · rw [← dropLast_concat_getLast hs.ne_root, prefix_concat_iff, dropLast_concat_getLast] at hx
    exact absurd ⟨hne, hx.resolve_left hself⟩ hway

theorem store_stores {g : Option F → F} (h : store d loc g = some d') : fileAt d' loc = some (g (fileAt d loc)) := by
  unfold fileAt
  rw [(store_some h).2, if_pos rfl]
  rfl

end AccessPoint.Tree
