/-
Decimal numerals: what `strconv.Itoa` prints, `strconv.Atoi` reads back (`atoi_toString`), and a numeral has no
character but digits and a sign (`numeral_plain`).
-/
import AccessPoint.Core.Tokens

namespace AccessPoint.Text

/-- the value of the digits read so far -/
def digitValue (cs : List Char) : ℤ := cs.foldl (fun n c => 10 * n + (c.toNat - '0'.toNat : ℕ)) 0

theorem digitChar_value {d : ℕ} (hd : d < 10) :
    (Nat.digitChar d).toNat - 48 = d ∧ (Nat.digitChar d).isDigit = true := by
  interval_cases d <;> decide

/-- the numeral of `n` consists of digits, and their value is `n` -/
theorem toDigits_value (n : ℕ) :
    Nat.toDigits 10 n ≠ [] ∧ (Nat.toDigits 10 n).all Char.isDigit = true ∧ digitValue (Nat.toDigits 10 n) = n := by
  induction n using Nat.strongRecOn with
  | ind n ih =>
    rw [Nat.toDigits_eq_if (by omega)]
    split_ifs with hn
    · obtain ⟨hval, hdig⟩ := digitChar_value hn
      refine ⟨by simp, by simp [hdig], ?_⟩
      simp [digitValue, hval]
    · obtain ⟨-, hall, hvalue⟩ := ih (n / 10) (by omega)
      obtain ⟨hval, hdig⟩ := digitChar_value (Nat.mod_lt n (by decide : 0 < 10))
      refine ⟨by simp, by simp [hdig, hall], ?_⟩
      have hsplit : digitValue (Nat.toDigits 10 (n / 10) ++ [(n % 10).digitChar]) =
          10 * digitValue (Nat.toDigits 10 (n / 10)) + ((n % 10 : ℕ) : ℤ) := by
        simp [digitValue, List.foldl_append, hval]
      rw [hsplit, hvalue]
      omega

theorem digits_toDigits (n : ℕ) : digits (Nat.toDigits 10 n) = some (n : ℤ) := by
  obtain ⟨hne, hall, hvalue⟩ := toDigits_value n
  rw [digits, if_pos ⟨hne, hall⟩]
  exact congrArg some hvalue

theorem toString_nat_toList (n : ℕ) : (toString n).toList = Nat.toDigits 10 n := by
  rw [Nat.toString_eq_repr, Nat.toList_repr]

theorem toString_int_toList (n : ℤ) :
    (toString n).toList = if n < 0 then '-' :: Nat.toDigits 10 n.natAbs else Nat.toDigits 10 n.natAbs := by
  cases n with
  | ofNat n =>
    have hlt : ¬ (Int.ofNat n < 0) := by simp
    rw [if_neg hlt]
    exact toString_nat_toList n
  | negSucc n =>
    have hlt : Int.negSucc n < 0 := Int.negSucc_lt_zero n
    rw [if_pos hlt]
    have htext : toString (Int.negSucc n) = "-" ++ toString (n + 1) := rfl
    rw [htext, String.toList_append, toString_nat_toList]
    rfl

/-- a text that starts with a digit has no sign -/
theorem atoi_unsigned {ds : List Char} {n : ℤ} (hall : ds.all Char.isDigit = true) (hread : digits ds = some n)
    (hlow : -2 ^ 63 ≤ n) (hhigh : n < 2 ^ 63) : atoi ds = some n := by
  unfold atoi
  dsimp only
  split
  · rename_i v m hm
    have hv : some m = digits ds := by
      rw [← hm]
      split
      · exact absurd hall (by simp)
      · exact absurd hall (by simp)
      · rfl
    obtain rfl : m = n := Option.some.inj (hv.trans hread)
    exact if_pos ⟨hlow, hhigh⟩
  · rename_i v hm
    exfalso
    have hv : none = digits ds := by
      rw [← hm]
      split
      · exact absurd hall (by simp)
      · exact absurd hall (by simp)
      · rfl
    rw [hread] at hv
    cases hv

/-- **A 64-bit number is read back from its numeral.** -/
theorem atoi_toString {n : ℤ} (hlow : -2 ^ 63 ≤ n) (hhigh : n < 2 ^ 63) : atoi (toString n).toList = some n := by
  rw [toString_int_toList]
  split_ifs with hneg
  · have habs : -((n.natAbs : ℕ) : ℤ) = n := by omega
    simp only [atoi, digits_toDigits, Option.map_some, habs]
    exact if_pos ⟨hlow, hhigh⟩
  · have habs : ((n.natAbs : ℕ) : ℤ) = n := by omega
    refine atoi_unsigned (toDigits_value n.natAbs).2.1 ?_ hlow hhigh
    rw [digits_toDigits, habs]

/-- a numeral is made of digits and at most a sign -/
theorem numeral_chars (n : ℤ) : ∀ c ∈ (toString n).toList, c.isDigit = true ∨ c = '-' := by
  intro c hc
  rw [toString_int_toList] at hc
  have hall := List.all_eq_true.1 (toDigits_value n.natAbs).2.1
  split_ifs at hc
  · rcases List.mem_cons.1 hc with rfl | hc
    · exact .inr rfl
    · exact .inl (hall c hc)
  · exact .inl (hall c hc)

theorem numeral_ne_nil (n : ℤ) : (toString n).toList ≠ [] := by
  rw [toString_int_toList]
  split_ifs
  · exact List.cons_ne_nil _ _
  · exact (toDigits_value n.natAbs).1

/-- different numbers have different numerals -/
theorem numeral_injective {m n : ℤ} (h : (toString m).toList = (toString n).toList) : m = n := by
  have hdigits : ∀ {a b : ℕ}, Nat.toDigits 10 a = Nat.toDigits 10 b → a = b := by
    intro a b hab
    have hvalue : some (a : ℤ) = some (b : ℤ) := by rw [← digits_toDigits, hab, digits_toDigits]
    exact_mod_cast Option.some.inj hvalue
  -- no digit is a sign
  have hsign : ∀ {a : ℕ} {cs : List Char}, Nat.toDigits 10 a ≠ '-' :: cs := by
    intro a cs ha
    have hall := (toDigits_value a).2.1
    rw [ha] at hall
    exact absurd hall (by simp)
  rw [toString_int_toList, toString_int_toList] at h
  split_ifs at h with hm hn hn
  · have := hdigits (List.cons.inj h).2
    omega
  · exact absurd h.symm hsign
  · exact absurd h hsign
  · have := hdigits h
    omega

theorem isDigit_not_space {c : Char} (h : c.isDigit = true) : isSpace c = false := by
  have hrange : 48 ≤ c.toNat ∧ c.toNat ≤ 57 := by
    simp only [Char.isDigit, Bool.and_eq_true, decide_eq_true_eq] at h
    exact ⟨h.1, h.2⟩
  simp only [isSpace, List.mem_cons, List.not_mem_nil, or_false, Bool.or_eq_false_iff, decide_eq_false_iff_not,
    Bool.and_eq_false_iff]
  omega

/-- a numeral has no white space -/
theorem numeral_plain (n : ℤ) : Plain (toString n).toList := by
  intro c hc
  rcases numeral_chars n c hc with h | rfl
  · exact isDigit_not_space h
  · decide

end AccessPoint.Text
