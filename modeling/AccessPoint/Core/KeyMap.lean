/-
Finite maps with a key type of decidable equality: `AList` at a constant value type, with the derived operations a
transactional store needs. A batch is itself a map, and writing a batch is a left-biased union, so that the new value
of every key of the batch, and only of those, is the one the batch gives.

- `mapKeys`: a batch computed key by key from a map (`lookup_mapKeys`);
- `ensureAll`: give every key of a list a default value unless it has one (`lookup_ensureAll`);
- `eraseAll`: erase every key of a list (`lookup_eraseAll`);
- `lookup_foldl_insert`: what a sequence of writes leaves;
- `count`: how many values satisfy a test (`count_insert`, `count_erase`, `count_pos`).
-/
import Mathlib.Data.List.AList
import Mathlib.Tactic

namespace AccessPoint

open List AList

/-- a finite map from `K` to `V` -/
abbrev KeyMap (K V : Type) := AList (fun _ : K => V)

namespace KeyMap

variable {K V W : Type} [DecidableEq K]

theorem lookup_insert_ite (m : KeyMap K V) (k k' : K) (v : V) :
    (m.insert k v).lookup k' = if k' = k then some v else m.lookup k' := by
  split_ifs with h
  · subst h; exact lookup_insert m
  · exact lookup_insert_ne h

theorem lookup_erase_ite (m : KeyMap K V) (k k' : K) :
    (m.erase k).lookup k' = if k' = k then none else m.lookup k' := by
  split_ifs with h
  · subst h; exact lookup_erase _ m
  · exact lookup_erase_ne h

variable {m : KeyMap K V}

theorem lookup_of_erase {k k' : K} {v : V} (h : (m.erase k).lookup k' = some v) : m.lookup k' = some v := by
  rw [lookup_erase_ite] at h
  split_ifs at h
  exact h

theorem mem_iff_lookup (m : KeyMap K V) (k : K) : k ∈ m ↔ ∃ v, m.lookup k = some v := by
  rw [← lookup_isSome, Option.isSome_iff_exists]

theorem lookup_none_of_notMem {k : K} (h : k ∉ m) : m.lookup k = none := lookup_eq_none.2 h

/-- the entries of `m` rewritten by `f`, those with `f k v = none` dropped -/
def mapKeys (f : K → V → Option W) (m : KeyMap K V) : KeyMap K W where
  entries := m.entries.filterMap fun e => (f e.1 e.2).map fun w => ⟨e.1, w⟩
  nodupKeys := by
    have hsub : ∀ l : List (Sigma fun _ : K => V),
        ((l.filterMap fun e => (f e.1 e.2).map fun w => (⟨e.1, w⟩ : Sigma fun _ : K => W)).map Sigma.fst).Sublist
          (l.map Sigma.fst) := by
      intro l
      induction l with
      | nil => simp
      | cons e l ih =>
        cases hf : f e.1 e.2 with
        | none => simpa [hf] using ih.cons _
        | some => simpa [hf] using ih
    exact (hsub m.entries).nodup m.nodupKeys

theorem lookup_mapKeys (f : K → V → Option W) (m : KeyMap K V) (k : K) :
    (mapKeys f m).lookup k = (m.lookup k).bind (f k) := by
  apply Option.ext
  intro w
  rw [← Option.mem_def, mem_lookup_iff]
  simp only [mapKeys, mem_filterMap, Option.map_eq_some_iff, Sigma.mk.injEq, Option.bind_eq_some_iff]
  constructor
  · rintro ⟨⟨_, v⟩, hm, _, hw, rfl, hww⟩
    exact ⟨v, mem_lookup_iff.2 hm, (eq_of_heq hww) ▸ hw⟩
  · rintro ⟨v, hv, hw⟩
    exact ⟨⟨k, v⟩, mem_lookup_iff.1 hv, w, hw, rfl, HEq.rfl⟩

/-- a batch written over a map -/
theorem lookup_union (b m : KeyMap K V) (k : K) : (b ∪ m).lookup k = (b.lookup k).or (m.lookup k) := by
  by_cases h : k ∈ b
  · rw [lookup_union_left h]
    obtain ⟨_, hv⟩ := (mem_iff_lookup b k).1 h
    simp [hv]
  · rw [lookup_union_right h, lookup_none_of_notMem h]
    simp

/-- `v` at key `k` unless `k` already has a value -/
def ensure (v : V) (m : KeyMap K V) (k : K) : KeyMap K V := if k ∈ m then m else m.insert k v

theorem lookup_ensure (v : V) (m : KeyMap K V) (k k' : K) :
    (ensure v m k).lookup k' = (m.lookup k').or (if k' = k then some v else none) := by
  unfold ensure
  split_ifs with h hk hk
  · subst hk
    obtain ⟨_, hu⟩ := (mem_iff_lookup m k').1 h
    simp [hu]
  · simp
  · subst hk
    rw [lookup_none_of_notMem h]
    simp [lookup_insert]
  · rw [lookup_insert_ne hk]
    simp

def ensureAll (v : V) (m : KeyMap K V) (ks : List K) : KeyMap K V := ks.foldl (ensure v) m

theorem lookup_ensureAll (v : V) (m : KeyMap K V) (ks : List K) (k : K) :
    (ensureAll v m ks).lookup k = (m.lookup k).or (if k ∈ ks then some v else none) := by
  induction ks generalizing m with
  | nil => simp [ensureAll]
  | cons k0 ks ih =>
    have h := ih (ensure v m k0)
    unfold ensureAll at h ⊢
    rw [foldl_cons, h, lookup_ensure]
    by_cases h0 : k = k0 <;> by_cases h1 : k ∈ ks <;> cases m.lookup k <;> simp [h0, h1]

/-- keys written one after the other, each with one value however often -/
theorem lookup_foldl_insert (sets : List (K × V)) (hsets : ∀ k v v', (k, v) ∈ sets → (k, v') ∈ sets → v = v') (k : K)
    (v : V) : (sets.foldl (fun m e => m.insert e.1 e.2) (∅ : KeyMap K V)).lookup k = some v ↔ (k, v) ∈ sets := by
  induction sets using reverseRecOn with
  | nil => simp
  | append_singleton sets e ih =>
    have hrest := ih fun k v v' h h' => hsets k v v' (mem_append_left _ h) (mem_append_left _ h')
    rw [foldl_append, foldl_cons, foldl_nil, lookup_insert_ite]
    split_ifs with hk
    · subst hk
      refine ⟨?_, fun h => ?_⟩
      · rintro ⟨⟩
        simp
      · rw [hsets e.1 v e.2 h (by simp)]
    · rw [hrest]
      simp [Prod.ext_iff, hk]

def eraseAll (m : KeyMap K V) (ks : List K) : KeyMap K V := ks.foldl (fun m k => m.erase k) m

theorem lookup_eraseAll (m : KeyMap K V) (ks : List K) (k : K) :
    (eraseAll m ks).lookup k = if k ∈ ks then none else m.lookup k := by
  induction ks generalizing m with
  | nil => simp [eraseAll]
  | cons k0 ks ih =>
    have h := ih (m.erase k0)
    unfold eraseAll at h ⊢
    rw [foldl_cons, h, lookup_erase_ite]
    by_cases h0 : k = k0 <;> by_cases h1 : k ∈ ks <;> simp [h0, h1]

/-- how many values satisfy `P` -/
def count (P : V → Bool) (m : KeyMap K V) : ℕ := m.entries.countP fun e => P e.2

theorem count_erase (P : V → Bool) (m : KeyMap K V) (k : K) :
    count P (m.erase k) + (if (m.lookup k).any P then 1 else 0) = count P m := by
  have hlist : ∀ l : List (Sigma fun _ : K => V),
      (l.kerase k).countP (fun e => P e.2) + (if (l.dlookup k).any P then 1 else 0) = l.countP fun e => P e.2 := by
    intro l
    induction l with
    | nil => rfl
    | cons e l ih =>
      obtain ⟨k', v⟩ := e
      by_cases hk : k' = k
      · subst hk
        have hhead : kerase k' (⟨k', v⟩ :: l) = l := kerase_cons_eq rfl
        rw [hhead, dlookup_cons_eq, countP_cons]
        rfl
      · have hne : k ≠ k' := fun h => hk h.symm
        rw [kerase_cons_ne hne, dlookup_cons_ne _ _ hne, countP_cons, countP_cons, ← ih]
        omega
  exact hlist m.entries

theorem count_insert (P : V → Bool) (m : KeyMap K V) (k : K) (v : V) :
    count P (m.insert k v) + (if (m.lookup k).any P then 1 else 0) = count P m + if P v then 1 else 0 := by
  have hins : count P (m.insert k v) = count P (m.erase k) + if P v then 1 else 0 :=
    countP_cons
  have := count_erase P m k
  omega

theorem count_pos {P : V → Bool} : 0 < count P m ↔ ∃ k v, m.lookup k = some v ∧ P v = true := by
  unfold count
  rw [countP_pos_iff]
  constructor
  · rintro ⟨⟨k, v⟩, hin, hv⟩
    exact ⟨k, v, mem_lookup_iff.2 hin, hv⟩
  · rintro ⟨k, v, hl, hv⟩
    exact ⟨⟨k, v⟩, mem_lookup_iff.1 hl, hv⟩

omit [DecidableEq K] in
theorem count_mono {P Q : V → Bool} (h : ∀ v, P v = true → Q v = true) (m : KeyMap K V) : count P m ≤ count Q m :=
  countP_mono_left fun e _ => h e.2

/-- at most one value satisfies `P` -/
theorem eq_of_count_le_one {P : V → Bool} (h : count P m ≤ 1) {k k' : K} {v v' : V}
    (hl : m.lookup k = some v) (hl' : m.lookup k' = some v') (hv : P v = true) (hv' : P v' = true) : k = k' := by
  by_contra hne
  have herase := count_erase P m k
  have hpos : 0 < count P (m.erase k) := by
    refine count_pos.2 ⟨k', v', ?_, hv'⟩
    rw [lookup_erase_ite, if_neg (Ne.symm hne)]
    exact hl'
  rw [hl, Option.any_some, hv, if_pos rfl] at herase
  omega

omit [DecidableEq K] in
theorem count_mapKeys (f : K → V → W) (m : KeyMap K V) :
    count (fun _ => true) (mapKeys (fun k v => some (f k v)) m) = count (fun _ => true) m := by
  simp [count, mapKeys]

end KeyMap

end AccessPoint
