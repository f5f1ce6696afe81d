import Mathlib.Data.List.Induction
import StackComputer.Proofs.Cutting

/-! # Decimal numerals

What counts as a numeral and which number it stands for, whether or not it has a sign or leading
zeros. A written number has digits only and no leading zero, and reads back.
-/

namespace StackComputer.Text

theorem digit_of_mem_toDigits {n : Nat} {c : Char} (h : c ∈ Nat.toDigits 10 n) :
    c.isDigit = true :=
  Nat.isDigit_of_mem_toDigits (by decide) (by decide) h

theorem head_toDigits_ne_zero {n : Nat} (hn : 0 < n) {c : Char}
    (h : (Nat.toDigits 10 n).head? = some c) : c ≠ '0' := by
  induction n using Nat.strongRecOn with
  | ind n ih =>
    by_cases hlt : n < 10
    · rw [Nat.toDigits_of_lt_base hlt] at h
      cases h
      intro hz
      exact Nat.ne_of_gt hn (Nat.digitChar_eq_zero.mp hz)
    · rw [Nat.toDigits_of_base_le (by decide) (by omega), List.head?_append] at h
      have hne : Nat.toDigits 10 (n / 10) ≠ [] := Nat.toDigits_ne_nil
      obtain ⟨d, ds, hds⟩ := List.exists_cons_of_ne_nil hne
      rw [hds] at h
      exact ih (n / 10) (by omega) (by omega) (by rw [hds]; simpa using h)

theorem toNat_of_isDigit {c : Char} (h : c.isDigit = true) : 48 ≤ c.toNat ∧ c.toNat ≤ 57 := by
  simpa [Char.isDigit, UInt32.le_iff_toNat_le] using h

theorem isBlank_eq_false_of_isDigit {c : Char} (h : c.isDigit = true) : isBlank c = false := by
  have hc := toNat_of_isDigit h
  simp only [isBlank, blankRanges, List.any_cons, List.any_nil]
  simp
  omega

theorem digits?_toDigits (n : Nat) : digits? (Nat.toDigits 10 n) = some n := by
  have hall : (Nat.toDigits 10 n).all Char.isDigit = true := by
    simp only [List.all_eq_true]
    exact fun _ hc => digit_of_mem_toDigits hc
  simp [digits?, hall]

theorem eq_of_repr_eq {m n : Nat} (h : m.repr = n.repr) : m = n := by
  have hm := digits?_toDigits m
  rw [← Nat.toList_repr, h, Nat.toList_repr, digits?_toDigits] at hm
  exact (Option.some.inj hm).symm

inductive Digits : List Char → Nat → Prop where
  | one {c : Char} : c.isDigit = true → Digits [c] (c.toNat - '0'.toNat)
  | more {cs : List Char} {n : Nat} {c : Char} : Digits cs n → c.isDigit = true →
      Digits (cs ++ [c]) (10 * n + (c.toNat - '0'.toNat))

inductive Unsigned : List Char → Nat → Prop where
  | plain {cs : List Char} {n : Nat} : Digits cs n → Unsigned cs n
  | plus {cs : List Char} {n : Nat} : Digits cs n → Unsigned ('+' :: cs) n

inductive Signed : List Char → Int → Prop where
  | unsigned {cs : List Char} {n : Nat} : Unsigned cs n → Signed cs n
  | minus {cs : List Char} {n : Nat} : Digits cs n → Signed ('-' :: cs) (-n)

theorem Digits.all {cs : List Char} {n : Nat} (h : Digits cs n) :
    cs ≠ [] ∧ ∀ c ∈ cs, c.isDigit = true := by
  induction h with
  | one hc =>
    refine ⟨List.cons_ne_nil _ _, ?_⟩
    intro c hmem
    rw [List.mem_singleton.mp hmem]
    exact hc
  | @more cs n c _ hc ih =>
    refine ⟨by simp, ?_⟩
    intro d hd
    rcases List.mem_append.mp hd with hd | hd
    · exact ih.2 d hd
    · rw [List.mem_singleton.mp hd]
      exact hc

theorem Digits.value {cs : List Char} {n : Nat} (h : Digits cs n) :
    Nat.ofDigitChars 10 cs 0 = n := by
  induction h with
  | one hc => simp [Nat.ofDigitChars]
  | more _ hc ih =>
    rw [Nat.ofDigitChars_append, ih]
    rfl

theorem digits_ofDigitChars {cs : List Char} (hne : cs ≠ [])
    (hall : ∀ c ∈ cs, c.isDigit = true) : Digits cs (Nat.ofDigitChars 10 cs 0) := by
  induction cs using List.reverseRecOn with
  | nil => exact absurd rfl hne
  | append_singleton cs c ih =>
    have hc : c.isDigit = true := hall c (by simp)
    rw [Nat.ofDigitChars_append]
    by_cases hcs : cs = []
    · subst hcs
      simpa [Nat.ofDigitChars] using Digits.one hc
    · exact .more (ih hcs fun d hd => hall d (List.mem_append_left _ hd)) hc

theorem digits?_eq_some_iff {cs : List Char} {n : Nat} : digits? cs = some n ↔ Digits cs n := by
  constructor
  · intro h
    unfold digits? at h
    split at h
    · rename_i hcs
      rw [Bool.and_eq_true, List.all_eq_true] at hcs
      cases h
      exact digits_ofDigitChars (by simpa using hcs.1) hcs.2
    · cases h
  · intro h
    obtain ⟨hne, hall⟩ := h.all
    have hcs : (!cs.isEmpty && cs.all Char.isDigit) = true := by
      simpa [hne] using hall
    rw [digits?, if_pos hcs, h.value]

theorem Digits.dropPlus_eq {cs : List Char} {n : Nat} (h : Digits cs n) : dropPlus cs = cs := by
  unfold dropPlus
  split
  · have hplus := h.all.2 '+' List.mem_cons_self
    cases hplus
  · rfl

theorem unsigned_iff {cs : List Char} {n : Nat} : Unsigned cs n ↔ Digits (dropPlus cs) n := by
  constructor
  · intro h
    cases h with
    | plain h => rwa [h.dropPlus_eq]
    | plus h => exact h
  · intro h
    unfold dropPlus at h
    split at h
    · exact .plus h
    · exact .plain h

theorem natural?_eq_some_iff {cs : List Char} {n : Nat} :
    natural? cs = some n ↔ Unsigned cs n ∧ n < addressLimit := by
  rw [natural?, Option.filter_eq_some_iff, digits?_eq_some_iff, unsigned_iff, decide_eq_true_eq]

theorem Unsigned.word?_eq {cs : List Char} {n : Nat} (h : Unsigned cs n) :
    word? cs = Word.ofInt? n := by
  unfold word?
  split
  · -- a numeral with a minus sign is not unsigned
    cases h with
    | plain h => cases h.all.2 '-' List.mem_cons_self
  · rw [digits?_eq_some_iff.mpr (unsigned_iff.mp h), Option.bind_some]

theorem word?_eq_some_iff {cs : List Char} {w : Word} :
    word? cs = some w ↔ Signed cs w.toInt := by
  constructor
  · intro h
    unfold word? at h
    split at h
    · obtain ⟨n, hn, hw⟩ := Option.bind_eq_some_iff.mp h
      rw [Word.ofInt?_eq_some_iff.mp hw]
      exact .minus (digits?_eq_some_iff.mp hn)
    · obtain ⟨n, hn, hw⟩ := Option.bind_eq_some_iff.mp h
      rw [Word.ofInt?_eq_some_iff.mp hw]
      exact .unsigned (unsigned_iff.mpr (digits?_eq_some_iff.mp hn))
  · intro h
    generalize hz : w.toInt = z at h
    cases h with
    | unsigned h =>
      rw [h.word?_eq]
      exact Word.ofInt?_eq_some_iff.mpr hz
    | minus h =>
      rw [word?, digits?_eq_some_iff.mpr h]
      exact Word.ofInt?_eq_some_iff.mpr hz

theorem Digits.isWord {cs : List Char} {n : Nat} (h : Digits cs n) : IsWord cs :=
  ⟨h.all.1, fun c hc => isBlank_eq_false_of_isDigit (h.all.2 c hc)⟩

theorem IsWord.cons {c : Char} {cs : List Char} (hc : isBlank c = false) (h : IsWord cs) :
    IsWord (c :: cs) := by
  refine ⟨List.cons_ne_nil _ _, ?_⟩
  intro d hd
  rcases List.mem_cons.mp hd with rfl | hd
  · exact hc
  · exact h.not_blank d hd

theorem Unsigned.isWord {cs : List Char} {n : Nat} (h : Unsigned cs n) : IsWord cs := by
  cases h with
  | plain h => exact h.isWord
  | plus h => exact h.isWord.cons (by decide)

theorem Signed.isWord {cs : List Char} {z : Int} (h : Signed cs z) : IsWord cs := by
  cases h with
  | unsigned h => exact h.isWord
  | minus h => exact h.isWord.cons (by decide)

theorem digits_repr (n : Nat) : Digits n.repr.toList n := by
  rw [Nat.toList_repr]
  exact digits?_eq_some_iff.mp (digits?_toDigits n)

theorem natural?_repr {n : Nat} (hn : n < addressLimit) : natural? n.repr.toList = some n :=
  natural?_eq_some_iff.mpr ⟨.plain (digits_repr n), hn⟩

theorem trim_repr (n : Nat) : trim n.repr.toList = n.repr.toList :=
  trim_eq_self (digits_repr n).isWord.not_blank

theorem digitChar_of_isDigit {c : Char} (h : c.isDigit = true) :
    c.toNat - '0'.toNat < 10 ∧ Nat.digitChar (c.toNat - '0'.toNat) = c := by
  have hc := toNat_of_isDigit h
  have hzero : '0'.toNat = 48 := rfl
  have hlt : c.toNat - '0'.toNat < 10 := by omega
  refine ⟨hlt, Char.toNat_inj.mp ?_⟩
  rw [Nat.toNat_digitChar_of_lt_ten hlt]
  omega

/-- Digits are those that the number is written with, or there are more of them. -/
theorem Digits.eq_toDigits_or_longer {cs : List Char} {n : Nat} (h : Digits cs n) :
    cs = Nat.toDigits 10 n ∨ (Nat.toDigits 10 n).length < cs.length := by
  induction h with
  | @one c hc =>
    obtain ⟨hlt, hchar⟩ := digitChar_of_isDigit hc
    rw [Nat.toDigits_of_lt_base hlt, hchar]
    exact .inl rfl
  | @more cs n c hcs hc ih =>
    obtain ⟨hlt, hchar⟩ := digitChar_of_isDigit hc
    rcases Nat.eq_zero_or_pos n with rfl | hn
    · -- The digits so far are zeros, and a single digit would do.
      have hpos : 0 < cs.length := List.length_pos_of_ne_nil hcs.all.1
      rw [Nat.mul_zero, Nat.zero_add, Nat.toDigits_of_lt_base hlt, List.length_append]
      exact .inr (Nat.lt_add_of_pos_left hpos)
    · rw [← Nat.toDigits_append_toDigits (by decide) hn hlt, Nat.toDigits_of_lt_base hlt, hchar]
      rcases ih with rfl | hlonger
      · exact .inl rfl
      · rw [List.length_append, List.length_append]
        exact .inr (Nat.add_lt_add_right hlonger _)

/-- No numeral of a number is as short as its written form. -/
theorem Unsigned.eq_repr_or_longer {cs : List Char} {n : Nat} (h : Unsigned cs n) :
    cs = n.repr.toList ∨ n.repr.toList.length < cs.length := by
  rw [Nat.toList_repr]
  cases h with
  | plain h => exact h.eq_toDigits_or_longer
  | @plus ds _ h =>
    have hle : (Nat.toDigits 10 n).length ≤ ds.length := by
      rcases h.eq_toDigits_or_longer with rfl | hlonger
      · exact Nat.le_refl _
      · exact Nat.le_of_lt hlonger
    exact .inr (Nat.lt_succ_of_le hle)

/-- The text of a word is a numeral of its value, also for the least word. -/
theorem signed_text (w : Word) : Signed w.text.toList w.toInt := by
  rw [Word.text]
  cases hz : w.toInt with
  | ofNat n => exact .unsigned (.plain (digits_repr n))
  | negSucc n =>
    have hminus : (Int.negSucc n).repr.toList = '-' :: (n + 1).repr.toList := by
      simp [Int.repr]
    rw [hminus]
    exact .minus (digits_repr (n + 1))

end StackComputer.Text
