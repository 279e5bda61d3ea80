import QpReferee.JsonText.Scan
import QpReferee.Proofs.Decimal.Value

/-!
# Written digits

The digits that `digitsOf` writes are those that `digitsValue` reads. A run of digits may be cut at any
place, and its length without the zeros at its start is the number of digits of its value.

* `digitsOf_append` : digits before and after a cut.
* `digitsValue_digitsOf`, `digitsValue_decimalText` : written digits are read back.
* `length_dropWhile_zero` : the leading digit is found in the text.
-/

namespace QpReferee

theorem isDigit_digitChar : ∀ d < 10, (digitChar d).isDigit = true := by
  decide

theorem toNat_digitChar : ∀ d < 10, (digitChar d).toNat - 48 = d := by
  decide

theorem digitChar_ne_zero : ∀ d < 10, d ≠ 0 → digitChar d ≠ '0' := by
  decide

/-! ## Writing -/

theorem digitsOf_tail (count n : ℕ) (tail : List Char) :
    digitsOf count n tail = digitsOf count n [] ++ tail := by
  induction count generalizing n tail with
  | zero => rfl
  | succ count ih =>
    rw [digitsOf, digitsOf, ih, ih _ [_], List.append_assoc]
    rfl

theorem digitsOf_succ (count n : ℕ) :
    digitsOf (count + 1) n [] = digitsOf count (n / 10) [] ++ [digitChar (n % 10)] := by
  rw [digitsOf, digitsOf_tail]

theorem length_digitsOf (count n : ℕ) : (digitsOf count n []).length = count := by
  induction count generalizing n with
  | zero => rfl
  | succ count ih => rw [digitsOf_succ, List.length_append, ih, List.length_singleton]

theorem isDigit_of_mem_digitsOf {count n : ℕ} {c : Char} (h : c ∈ digitsOf count n []) :
    c.isDigit = true := by
  induction count generalizing n with
  | zero => cases h
  | succ count ih =>
    rw [digitsOf_succ, List.mem_append, List.mem_singleton] at h
    rcases h with h | rfl
    · exact ih h
    · exact isDigit_digitChar _ (Nat.mod_lt _ (by decide))

theorem digitsOf_append (a b n : ℕ) (tail : List Char) :
    digitsOf a (n / 10 ^ b) (digitsOf b n tail) = digitsOf (a + b) n tail := by
  induction b generalizing n tail with
  | zero => rw [pow_zero, Nat.div_one, digitsOf, Nat.add_zero]
  | succ b ih => rw [digitsOf, ← Nat.add_assoc, digitsOf, ← ih, Nat.pow_succ', Nat.div_div_eq_div_mul]

theorem digitCount_of_bounds {n k : ℕ} (hle : 10 ^ k ≤ n) (hlt : n < 10 ^ (k + 1)) :
    digitCount n = k + 1 := by
  have hcount := digitCount_le_of_lt hlt
  have hbound := lt_pow_digitCount n
  have hpow := (Nat.pow_lt_pow_iff_right (by decide)).mp (hle.trans_lt hbound)
  omega

theorem digitCount_div_pow (n b : ℕ) : digitCount (n / 10 ^ b) = digitCount n - b := by
  induction b generalizing n with
  | zero => rw [pow_zero, Nat.div_one, Nat.sub_zero]
  | succ b ih =>
    rw [Nat.pow_succ', ← Nat.div_div_eq_div_mul, ih]
    by_cases hn : n = 0
    · rw [hn, Nat.zero_div, digitCount_zero, Nat.zero_sub, Nat.zero_sub]
    · rw [digitCount.eq_def n, dif_neg hn, Nat.add_sub_add_right]

theorem head_ne_zero {n b : ℕ} (h : b < digitCount n) : n / 10 ^ b ≠ 0 := by
  intro hzero
  have hcount := digitCount_div_pow n b
  rw [hzero, digitCount_zero] at hcount
  omega

theorem digitsOf_leading {n : ℕ} (hn : n ≠ 0) :
    ∃ c cs, digitsOf (digitCount n) n [] = c :: cs ∧ c.isDigit = true ∧ c ≠ '0' := by
  obtain ⟨k, hk⟩ := Nat.exists_eq_succ_of_ne_zero (digitCount_pos hn).ne'
  have hle := pow_digitCount_le hn
  have hlt := lt_pow_digitCount n
  rw [hk, Nat.pow_succ'] at hle hlt
  have hpos : 0 < n / 10 ^ k := Nat.div_pos (by omega) (Nat.pow_pos (by decide))
  have hten : n / 10 ^ k < 10 := (Nat.div_lt_iff_lt_mul (Nat.pow_pos (by decide))).mpr (by omega)
  refine ⟨digitChar (n / 10 ^ k), digitsOf k n [], ?_, isDigit_digitChar _ hten,
    digitChar_ne_zero _ hten (by omega)⟩
  rw [hk, Nat.succ_eq_one_add, ← digitsOf_append, digitsOf, digitsOf, Nat.mod_eq_of_lt hten]

/-! ## Reading -/

open JsonText

theorem ofDigits_pairDigits (base : ℕ) (digits : List ℕ) :
    Nat.ofDigits (base * base) (pairDigits base digits) = Nat.ofDigits base digits := by
  induction digits using pairDigits.induct with
  | case1 a b rest ih =>
    rw [pairDigits, Nat.ofDigits_cons, Nat.ofDigits_cons, Nat.ofDigits_cons, ih]
    ring
  | case2 rest hrest =>
    cases rest with
    | nil => rfl
    | cons a rest =>
      cases rest with
      | nil => simp [pairDigits]
      | cons b rest => exact absurd rfl (hrest a b rest)

theorem fromDigits_eq (base : ℕ) (digits : List ℕ) : fromDigits base digits = Nat.ofDigits base digits := by
  induction base, digits using fromDigits.induct with
  | case1 base => rw [fromDigits, Nat.ofDigits_nil]
  | case2 base a => rw [fromDigits, Nat.ofDigits_singleton]
  | case3 base a b rest ih =>
    rw [fromDigits, ih, Nat.ofDigits_cons, ofDigits_pairDigits, Nat.ofDigits_cons, Nat.ofDigits_cons]
    ring

theorem digitsValue_nil : digitsValue [] = 0 := by
  rw [digitsValue, List.reverse_nil, List.map_nil, fromDigits]

theorem digitsValue_append (as bs : List Char) :
    digitsValue (as ++ bs) = digitsValue as * 10 ^ bs.length + digitsValue bs := by
  unfold digitsValue
  rw [fromDigits_eq, fromDigits_eq, fromDigits_eq, List.reverse_append, List.map_append, Nat.ofDigits_append,
    List.length_map, List.length_reverse, Nat.mul_comm, Nat.add_comm]

theorem digitsValue_singleton (c : Char) : digitsValue [c] = c.toNat - 48 := by
  rw [digitsValue, fromDigits_eq, List.reverse_singleton, List.map_singleton, Nat.ofDigits_singleton]

theorem digitsValue_concat (ds : List Char) (c : Char) :
    digitsValue (ds ++ [c]) = 10 * digitsValue ds + (c.toNat - 48) := by
  rw [digitsValue_append, digitsValue_singleton, List.length_singleton, pow_one, Nat.mul_comm]

theorem digitsValue_cons (c : Char) (ds : List Char) :
    digitsValue (c :: ds) = (c.toNat - 48) * 10 ^ ds.length + digitsValue ds := by
  rw [← List.singleton_append, digitsValue_append, digitsValue_singleton]

theorem digitsValue_digitsOf (count n : ℕ) : digitsValue (digitsOf count n []) = n % 10 ^ count := by
  induction count generalizing n with
  | zero => rw [pow_zero, Nat.mod_one, digitsOf, digitsValue_nil]
  | succ count ih =>
    rw [digitsOf_succ, digitsValue_concat, ih, toNat_digitChar _ (Nat.mod_lt _ (by decide)),
      Nat.pow_succ', Nat.mod_mul, Nat.add_comm]

theorem digitsValue_decimalText (n : ℕ) : digitsValue (decimalText n) = n := by
  rw [decimalText, digitsValue_digitsOf]
  refine Nat.mod_eq_of_lt ((lt_pow_digitCount n).trans_le ?_)
  exact Nat.pow_le_pow_right (by decide) (Nat.le_max_right _ _)

theorem toNat_of_isDigit {c : Char} (h : c.isDigit = true) : 48 ≤ c.toNat ∧ c.toNat ≤ 57 :=
  Char.isDigit_iff_toNat.mp h

theorem digitsValue_lt {ds : List Char} (h : ∀ c ∈ ds, c.isDigit = true) :
    digitsValue ds < 10 ^ ds.length := by
  induction ds with
  | nil => rw [digitsValue_nil]; exact Nat.one_pos
  | cons c ds ih =>
    have hc := toNat_of_isDigit (h c List.mem_cons_self)
    have hrest := ih fun d hd => h d (List.mem_cons_of_mem _ hd)
    have hdigit : (c.toNat - 48) * 10 ^ ds.length ≤ 9 * 10 ^ ds.length :=
      Nat.mul_le_mul_right _ (by omega)
    rw [digitsValue_cons, List.length_cons, Nat.pow_succ']
    omega

theorem length_dropWhile_zero {ds : List Char} (h : ∀ c ∈ ds, c.isDigit = true) :
    (ds.dropWhile (· == '0')).length = digitCount (digitsValue ds) := by
  induction ds with
  | nil => rw [digitsValue_nil, digitCount_zero]; rfl
  | cons c ds ih =>
    have hrest : ∀ d ∈ ds, d.isDigit = true := fun d hd => h d (List.mem_cons_of_mem _ hd)
    rw [digitsValue_cons]
    by_cases hc : c = '0'
    · subst hc
      rw [List.dropWhile_cons_of_pos (by decide), ih hrest]
      congr 1
      exact (Nat.zero_add _).symm.trans (congrArg (· + _) (Nat.zero_mul _).symm)
    · have hdigit := toNat_of_isDigit (h c List.mem_cons_self)
      have hne : c.toNat ≠ 48 := fun heq => hc (Char.toNat_inj.mp heq)
      have hlow : 1 * 10 ^ ds.length ≤ (c.toNat - 48) * 10 ^ ds.length := Nat.mul_le_mul_right _ (by omega)
      have hhigh : (c.toNat - 48) * 10 ^ ds.length ≤ 9 * 10 ^ ds.length := Nat.mul_le_mul_right _ (by omega)
      have hlt := digitsValue_lt hrest
      rw [List.dropWhile_cons_of_neg (by simpa using hc), List.length_cons]
      refine (digitCount_of_bounds (by omega) ?_).symm
      rw [Nat.pow_succ']
      omega

end QpReferee
