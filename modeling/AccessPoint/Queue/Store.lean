/-
The live job queue as a store of ads (internal/queue/queue.go, key scheme; collections.Collection).

A key is a pair: proc `p ≥ 0` of cluster `c` is "c.p", the cluster ad is "c.-1". A proc ad is chained to its cluster ad:
`get` reads the flattened ad, the proc's own attributes over those of the cluster ad; `put` and `update` replace the ad
of a key by exactly the ad they are given; `scan` yields the flattened proc ads and hides cluster ads.

The only non-job key is the cluster-id counter; it is a field of the queue, not an entry of the store.
-/
import AccessPoint.ClassAd
import AccessPoint.Core.KeyMap

namespace AccessPoint

/-- the key "cluster.proc" -/
structure JobKey where
  cluster : ℤ
  proc : ℤ
deriving DecidableEq, Repr

/-- the key of the cluster ad of `c` -/
def clusterKey (c : ℤ) : JobKey := ⟨c, -1⟩

@[simp] theorem clusterKey_cluster (c : ℤ) : (clusterKey c).cluster = c := rfl

@[simp] theorem clusterKey_proc (c : ℤ) : (clusterKey c).proc = -1 := rfl

/-- a proc ad is chained to its cluster ad; a cluster ad has no parent -/
def parentKeyFor (k : JobKey) : Option JobKey := if k.proc < 0 then none else some (clusterKey k.cluster)

/-- hidden from `scan` -/
def isStructural (k : JobKey) : Bool := k.proc < 0

variable {k : JobKey}

theorem parentKeyFor_proc (h : 0 ≤ k.proc) : parentKeyFor k = some (clusterKey k.cluster) := by
  unfold parentKeyFor
  rw [if_neg (by omega)]

theorem parentKeyFor_neg (h : k.proc < 0) : parentKeyFor k = none := if_pos h

theorem proc_ne_clusterKey (h : 0 ≤ k.proc) (c : ℤ) : k ≠ clusterKey c := by
  intro hk
  rw [hk, clusterKey_proc] at h
  omega

theorem eq_clusterKey (h : k.proc = -1) : k = clusterKey k.cluster := by
  cases k
  simp_all [clusterKey]

/-- key ↦ own attributes -/
abbrev Store (E : Type) := KeyMap JobKey (Ad E)

namespace Store

variable {E : Type}

/-- the attributes inherited at `k`: those of the parent ad, none when there is no parent or no ad there -/
def parentAd (s : Store E) (k : JobKey) : Ad E := ((parentKeyFor k).bind s.lookup).getD Ad.empty

/-- `Collection.Get`: the flattened ad -/
def get (s : Store E) (k : JobKey) : Option (Ad E) := (s.lookup k).map fun own => own.chainTo (s.parentAd k)

/-- `Collection.Put` -/
def put (s : Store E) (k : JobKey) (ad : Ad E) : Store E := s.insert k ad

/-- `Collection.Delete` -/
def delete (s : Store E) (k : JobKey) : Store E := s.erase k

/-- `Collection.Update`: one batch -/
def update (s : Store E) (batch : KeyMap JobKey (Ad E)) : Store E := batch ∪ s

/-- `Collection.Scan`: the flattened proc ads -/
def scan (s : Store E) : List (Ad E) :=
  s.entries.filterMap fun e => if isStructural e.1 then none else some (e.2.chainTo (s.parentAd e.1))

variable (s : Store E)

theorem lookup_put (k k' : JobKey) (ad : Ad E) :
    (s.put k ad).lookup k' = if k' = k then some ad else s.lookup k' := KeyMap.lookup_insert_ite s k k' ad

theorem lookup_delete (k k' : JobKey) :
    (s.delete k).lookup k' = if k' = k then none else s.lookup k' := KeyMap.lookup_erase_ite s k k'

theorem parentAd_proc (h : 0 ≤ k.proc) : s.parentAd k = (s.lookup (clusterKey k.cluster)).getD Ad.empty := by
  simp [parentAd, parentKeyFor_proc h]

theorem parentAd_neg (h : k.proc < 0) : s.parentAd k = Ad.empty := by
  simp [parentAd, parentKeyFor_neg h]

theorem get_eq_some {s : Store E} {ad : Ad E} :
    s.get k = some ad ↔ ∃ own, s.lookup k = some own ∧ own.chainTo (s.parentAd k) = ad := by
  simp [get, Option.map_eq_some_iff]

theorem get_eq_none {s : Store E} : s.get k = none ↔ s.lookup k = none := by
  simp [get, Option.map_eq_none_iff]

theorem get_of_lookup {s : Store E} {own : Ad E} (h : s.lookup k = some own) :
    s.get k = some (own.chainTo (s.parentAd k)) := by
  simp [get, h]

theorem get_neg (h : k.proc < 0) : s.get k = s.lookup k := by
  unfold get
  rw [parentAd_neg s h]
  simp

/-- two stores that agree at a key and at its parent give the same flattened ad -/
theorem get_congr {s s' : Store E} (h : s'.lookup k = s.lookup k)
    (hp : 0 ≤ k.proc → s'.lookup (clusterKey k.cluster) = s.lookup (clusterKey k.cluster)) : s'.get k = s.get k := by
  rcases lt_or_ge k.proc 0 with hk | hk
  · rw [get_neg s hk, get_neg s' hk, h]
  · unfold get
    rw [parentAd_proc s hk, parentAd_proc s' hk, h, hp hk]

/-- a put of a proc is no put of a parent -/
theorem parentAd_put (hk : 0 ≤ k.proc) (ad : Ad E) (k' : JobKey) : (s.put k ad).parentAd k' = s.parentAd k' := by
  rcases lt_or_ge k'.proc 0 with hk' | hk'
  · rw [parentAd_neg _ hk', parentAd_neg _ hk']
  · rw [parentAd_proc _ hk', parentAd_proc _ hk', lookup_put, if_neg (Ne.symm (proc_ne_clusterKey hk k'.cluster))]

theorem parentAd_delete (hk : 0 ≤ k.proc) (k' : JobKey) : (s.delete k).parentAd k' = s.parentAd k' := by
  rcases lt_or_ge k'.proc 0 with hk' | hk'
  · rw [parentAd_neg _ hk', parentAd_neg _ hk']
  · rw [parentAd_proc _ hk', parentAd_proc _ hk', lookup_delete, if_neg (Ne.symm (proc_ne_clusterKey hk k'.cluster))]

/-- the flattened ad after a put: the parent shows through where the new ad has nothing -/
theorem get_put_self (k : JobKey) (ad : Ad E) : (s.put k ad).get k = some (ad.chainTo (s.parentAd k)) := by
  have hparent : (s.put k ad).parentAd k = s.parentAd k := by
    rcases lt_or_ge k.proc 0 with hk | hk
    · rw [parentAd_neg _ hk, parentAd_neg _ hk]
    · rw [parentAd_proc _ hk, parentAd_proc _ hk, lookup_put, if_neg (Ne.symm (proc_ne_clusterKey hk k.cluster))]
  rw [get_of_lookup ((lookup_put s k k ad).trans (if_pos rfl)), hparent]

/-- a put of a proc leaves every other key's flattened ad -/
theorem get_put_ne {k k' : JobKey} (hk : 0 ≤ k.proc) (hne : k' ≠ k) (ad : Ad E) : (s.put k ad).get k' = s.get k' := by
  refine get_congr ?_ fun _ => ?_
  · rw [lookup_put, if_neg hne]
  · rw [lookup_put, if_neg (Ne.symm (proc_ne_clusterKey hk k'.cluster))]

theorem mem_scan {s : Store E} {ad : Ad E} : ad ∈ s.scan ↔ ∃ k, 0 ≤ k.proc ∧ s.get k = some ad := by
  simp only [scan, List.mem_filterMap]
  constructor
  · rintro ⟨⟨k, own⟩, hm, hk⟩
    by_cases hs : isStructural k = true
    · simp [hs] at hk
    · rw [if_neg hs] at hk
      exact ⟨k, by simpa [isStructural] using hs, get_eq_some.2 ⟨own, AList.mem_lookup_iff.2 hm, Option.some.inj hk⟩⟩
  · rintro ⟨k, hk, hg⟩
    obtain ⟨own, hl, rfl⟩ := get_eq_some.1 hg
    refine ⟨⟨k, own⟩, AList.mem_lookup_iff.1 hl, ?_⟩
    have hs : isStructural k = false := by simp [isStructural, hk]
    simp [hs]

end Store

end AccessPoint
