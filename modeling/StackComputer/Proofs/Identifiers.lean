import Mathlib.Algebra.Group.Nat.Defs
import StackComputer.Store

/-! # Identifiers

An identifier is read as a number again, so different numbers have different identifiers. While
seven digits are enough for the numbers, the texts are in the order of the numbers. -/

namespace StackComputer

namespace Text

def hexValue (cs : List Char) : Nat :=
  cs.foldl (fun n c => 16 * n + (if c.isDigit then c.toNat - 48 else c.toNat - 87)) 0

theorem hexValue_concat {digit : Nat} (h : digit < 16) (cs : List Char) :
    hexValue (cs ++ [digit.digitChar]) = 16 * hexValue cs + digit := by
  have hdigit : ∀ k < 16, (if k.digitChar.isDigit then k.digitChar.toNat - 48
      else k.digitChar.toNat - 87) = k := by decide
  rw [hexValue, List.foldl_append, List.foldl_cons, List.foldl_nil, hdigit digit h]
  rfl

theorem hexValue_replicate_append (k : Nat) (cs : List Char) :
    hexValue (List.replicate k '0' ++ cs) = hexValue cs := by
  induction k with
  | zero => rfl
  | succ k ih =>
    rw [List.replicate_succ, List.cons_append, ← ih]
    rfl

theorem hexValue_toDigits (n : Nat) : hexValue (Nat.toDigits 16 n) = n := by
  induction n using Nat.strongRecOn with
  | ind n ih =>
    by_cases hlt : n < 16
    · rw [Nat.toDigits_of_lt_base hlt]
      have hone := hexValue_concat hlt []
      rw [List.nil_append] at hone
      rw [hone]
      exact Nat.zero_add n
    · rw [Nat.toDigits_of_base_le (by decide) (by omega),
        hexValue_concat (Nat.mod_lt n (by decide)), ih (n / 16) (by omega)]
      omega

def IsHexDigit (c : Char) : Prop := ∃ digit < 16, c = Nat.digitChar digit

theorem isHexDigit_of_mem_toDigits {n : Nat} {c : Char} (h : c ∈ Nat.toDigits 16 n) :
    IsHexDigit c := by
  induction n using Nat.strongRecOn with
  | ind n ih =>
    by_cases hlt : n < 16
    · rw [Nat.toDigits_of_lt_base hlt, List.mem_singleton] at h
      exact ⟨n, hlt, h⟩
    · rw [Nat.toDigits_of_base_le (by decide) (by omega), List.mem_append, List.mem_singleton] at h
      rcases h with h | h
      · exact ih (n / 16) (by omega) h
      · exact ⟨n % 16, Nat.mod_lt n (by decide), h⟩

theorem hexValue_append (as bs : List Char) :
    hexValue (as ++ bs) = hexValue as * 16 ^ bs.length + hexValue bs := by
  induction bs generalizing as with
  | nil => simp [hexValue]
  | cons b bs ih =>
    have hone : hexValue (as ++ [b]) = 16 * hexValue as + hexValue [b] := by
      simp [hexValue, List.foldl_append]
    have hleft := ih (as ++ [b])
    have hright := ih [b]
    rw [List.append_assoc, List.singleton_append] at hleft
    rw [List.singleton_append] at hright
    rw [hleft, hright, hone, List.length_cons, Nat.pow_succ]
    grind

theorem hexValue_cons {digit : Nat} (h : digit < 16) (cs : List Char) :
    hexValue (digit.digitChar :: cs) = digit * 16 ^ cs.length + hexValue cs := by
  have hone : hexValue [digit.digitChar] = digit := by
    rw [← List.nil_append [digit.digitChar], hexValue_concat h]
    exact Nat.zero_add digit
  rw [← List.singleton_append, hexValue_append, hone]

theorem hexValue_lt {cs : List Char} (h : ∀ c ∈ cs, IsHexDigit c) :
    hexValue cs < 16 ^ cs.length := by
  induction cs with
  | nil => decide
  | cons c cs ih =>
    obtain ⟨digit, hdigit, rfl⟩ := h c List.mem_cons_self
    have hcs := ih fun c hc => h c (List.mem_cons_of_mem _ hc)
    rw [hexValue_cons hdigit, List.length_cons, Nat.pow_succ]
    have hmul : digit * 16 ^ cs.length ≤ 15 * 16 ^ cs.length :=
      Nat.mul_le_mul_right _ (by omega)
    omega

/-- Digits in equal number are in the order of the numbers that they stand for. -/
theorem lt_of_hexValue_lt {as bs : List Char} (ha : ∀ c ∈ as, IsHexDigit c)
    (hb : ∀ c ∈ bs, IsHexDigit c) (hlength : as.length = bs.length)
    (h : hexValue as < hexValue bs) : as < bs := by
  induction as generalizing bs with
  | nil =>
    rw [List.eq_nil_of_length_eq_zero hlength.symm] at h
    exact absurd h (Nat.lt_irrefl _)
  | cons a as ih =>
    cases bs with
    | nil => cases hlength
    | cons b bs =>
      obtain ⟨i, hi, rfl⟩ := ha a List.mem_cons_self
      obtain ⟨j, hj, rfl⟩ := hb b List.mem_cons_self
      have has : ∀ c ∈ as, IsHexDigit c := fun c hc => ha c (List.mem_cons_of_mem _ hc)
      have hbs : ∀ c ∈ bs, IsHexDigit c := fun c hc => hb c (List.mem_cons_of_mem _ hc)
      have hlen : as.length = bs.length := Nat.succ.inj hlength
      have hbound := hexValue_lt hbs
      rw [hexValue_cons hi, hexValue_cons hj, hlen] at h
      rw [List.cons_lt_cons_iff]
      rcases Nat.lt_trichotomy i j with hij | rfl | hij
      · left
        have hdigits : ∀ k < 16, ∀ l < k, Nat.digitChar l < Nat.digitChar k := by decide
        exact hdigits j hj i hij
      · right
        exact ⟨rfl, ih has hbs hlen (by omega)⟩
      · have hmul : (j + 1) * 16 ^ bs.length ≤ i * 16 ^ bs.length := Nat.mul_le_mul_right _ hij
        rw [Nat.add_mul] at hmul
        omega

end Text

namespace Catalogue

theorem hexValue_identifier (n : Nat) : Text.hexValue (identifier n).toList = n := by
  rw [identifier, String.toList_ofList, List.leftpad, Text.hexValue_replicate_append,
    Text.hexValue_toDigits]

theorem identifier_injective {m n : Nat} (h : identifier m = identifier n) : m = n := by
  rw [← hexValue_identifier m, h, hexValue_identifier]

theorem length_identifier {n : Nat} (h : n < 2 ^ 28) : (identifier n).length = 7 := by
  have hdigits : (Nat.toDigits 16 n).length ≤ 7 :=
    (Nat.length_toDigits_le_iff (by decide) (by decide)).mpr h
  rw [identifier, String.length_ofList, List.length_leftpad]
  omega

theorem isHexDigit_of_mem_identifier {n : Nat} {c : Char} (h : c ∈ (identifier n).toList) :
    Text.IsHexDigit c := by
  rw [identifier, String.toList_ofList, List.leftpad, List.mem_append] at h
  rcases h with h | h
  · exact ⟨0, by decide, List.eq_of_mem_replicate h⟩
  · exact Text.isHexDigit_of_mem_toDigits h

theorem identifier_lt_identifier {m n : Nat} (hmn : m < n) (hn : n < 2 ^ 28) :
    identifier m < identifier n := by
  rw [String.lt_iff]
  apply Text.lt_of_hexValue_lt
  · exact fun _ => isHexDigit_of_mem_identifier
  · exact fun _ => isHexDigit_of_mem_identifier
  · rw [String.length_toList, String.length_toList, length_identifier hn,
      length_identifier (Nat.lt_trans hmn hn)]
  · rw [hexValue_identifier, hexValue_identifier]
    exact hmn

end Catalogue

end StackComputer
