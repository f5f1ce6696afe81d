import Mathlib.Algebra.Group.Nat.Defs
import Mathlib.Data.List.Basic

/-! # Texts in the order of their bytes

A text is kept as the bytes of its characters in UTF-8. Characters with a larger code have larger
bytes, read from the front, so texts compare by the codes of their characters as they do by their
bytes.
-/

namespace StackComputer.Text

def bytes (s : String) : List UInt8 := s.toUTF8.data.toList

theorem bytes_eq_flatMap (s : String) : bytes s = s.toList.flatMap String.utf8EncodeChar := by
  calc bytes s
    _ = (String.ofList s.toList).toByteArray.data.toList := by
      rw [String.ofList_toList]
      rfl
    _ = s.toList.flatMap String.utf8EncodeChar := by
      rw [String.toByteArray_ofList, List.utf8Encode, List.toList_data_toByteArray]

def byteRun (base : Nat) : Nat → Nat → List UInt8
  | 0, code => [.ofNat (code + base)]
  | more + 1, code => byteRun base more (code / 64) ++ [.ofNat (code % 64 + 128)]

theorem exists_byteRun_eq_cons (base more code : Nat) :
    ∃ rest, byteRun base more code = .ofNat (code / 64 ^ more + base) :: rest := by
  induction more generalizing code with
  | zero => exact ⟨[], by simp [byteRun]⟩
  | succ more ih =>
    obtain ⟨rest, hrest⟩ := ih (code / 64)
    refine ⟨rest ++ [.ofNat (code % 64 + 128)], ?_⟩
    rw [byteRun, hrest, Nat.div_div_eq_div_mul, Nat.pow_succ', List.cons_append]

theorem ofNat_lt_ofNat {m n : Nat} (h : m < n) (hn : n < 256) : UInt8.ofNat m < UInt8.ofNat n := by
  rw [UInt8.lt_iff_toNat_lt, UInt8.toNat_ofNat', UInt8.toNat_ofNat', Nat.mod_eq_of_lt hn,
    Nat.mod_eq_of_lt (Nat.lt_trans h hn)]
  exact h

/-- Runs of one length compare as the codes do, whatever comes after them. -/
theorem byteRun_append_lt {base more m n : Nat} (h : m < n) (hn : n / 64 ^ more + base < 256)
    (xs ys : List UInt8) : byteRun base more m ++ xs < byteRun base more n ++ ys := by
  induction more generalizing m n xs ys with
  | zero =>
    rw [Nat.pow_zero, Nat.div_one] at hn
    exact List.cons_lt_cons_iff.mpr (.inl (ofNat_lt_ofNat (by omega) hn))
  | succ more ih =>
    rw [Nat.pow_succ', ← Nat.div_div_eq_div_mul] at hn
    rw [byteRun, byteRun, List.append_assoc, List.append_assoc]
    rcases Nat.lt_or_ge (m / 64) (n / 64) with hlt | hge
    · exact ih hlt hn _ _
    · have heq : m / 64 = n / 64 := by omega
      rw [heq]
      apply List.append_left_lt
      exact List.cons_lt_cons_iff.mpr (.inl (ofNat_lt_ofNat (by omega) (by omega)))

/-- The bytes of a character, by how many they are. The leading byte tells their number. -/
inductive Encoding (code : Nat) : List UInt8 → Prop where
  | one : code < 0x80 → Encoding code (byteRun 0 0 code)
  | two : 0x80 ≤ code → code < 0x800 → Encoding code (byteRun 0xc0 1 code)
  | three : 0x800 ≤ code → code < 0x10000 → Encoding code (byteRun 0xe0 2 code)
  | four : 0x10000 ≤ code → code < 0x110000 → Encoding code (byteRun 0xf0 3 code)

theorem encoding (c : Char) : Encoding c.val.toNat (String.utf8EncodeChar c) := by
  have hvalid := c.valid
  simp only [UInt32.isValidChar, Nat.isValidChar] at hvalid
  fun_cases String.utf8EncodeChar with
  | case1 n h₁ => exact .one (by omega)
  | case2 n h₁ h₂ =>
    have hlead : n / 64 % 0x20 = n / 64 := Nat.mod_eq_of_lt (by omega)
    rw [hlead]
    exact .two (by omega) (by omega)
  | case3 n h₁ h₂ h₃ =>
    have hlead : n / 4096 % 0x10 = n / 64 / 64 := by omega
    rw [hlead]
    exact .three (by omega) (by omega)
  | case4 n h₁ h₂ h₃ =>
    have hlead : n / 262144 % 0x08 = n / 64 / 64 / 64 := by omega
    have hnext : n / 4096 = n / 64 / 64 := by omega
    rw [hlead, hnext]
    exact .four (by omega) (by omega)

theorem byteRun_append_lt_of_lead {base base' more more' m n : Nat}
    (h : m / 64 ^ more + base < n / 64 ^ more' + base') (hn : n / 64 ^ more' + base' < 256)
    (xs ys : List UInt8) : byteRun base more m ++ xs < byteRun base' more' n ++ ys := by
  obtain ⟨bs, hbs⟩ := exists_byteRun_eq_cons base more m
  obtain ⟨cs, hcs⟩ := exists_byteRun_eq_cons base' more' n
  rw [hbs, hcs]
  exact List.cons_lt_cons_iff.mpr (.inl (ofNat_lt_ofNat h hn))

theorem Encoding.append_lt {m n : Nat} {bs cs : List UInt8} (hbs : Encoding m bs)
    (hcs : Encoding n cs) (h : m < n) (xs ys : List UInt8) : bs ++ xs < cs ++ ys := by
  cases hbs <;> cases hcs
  -- codes of the same length go on to the first difference; others differ in the leading byte
  case one.one => exact byteRun_append_lt h (by omega) _ _
  case two.two => exact byteRun_append_lt h (by omega) _ _
  case three.three => exact byteRun_append_lt h (by omega) _ _
  case four.four => exact byteRun_append_lt h (by omega) _ _
  all_goals exact byteRun_append_lt_of_lead (by omega) (by omega) _ _

theorem flatMap_encode_lt {cs ds : List Char} (h : cs < ds) :
    cs.flatMap String.utf8EncodeChar < ds.flatMap String.utf8EncodeChar := by
  induction h with
  | @nil d ds =>
    obtain ⟨b, bs, hbs⟩ := List.exists_cons_of_ne_nil (String.utf8EncodeChar_ne_nil (c := d))
    rw [List.flatMap_cons, hbs]
    exact List.nil_lt_cons b _
  | rel hlt => exact (encoding _).append_lt (encoding _) hlt _ _
  | cons _ ih =>
    rw [List.flatMap_cons, List.flatMap_cons]
    exact List.append_left_lt ih

theorem bytes_lt_bytes_iff {s t : String} : bytes s < bytes t ↔ s < t := by
  have hmono : ∀ {s t : String}, s < t → bytes s < bytes t := by
    intro s t h
    rw [bytes_eq_flatMap, bytes_eq_flatMap]
    exact flatMap_encode_lt h
  constructor
  · intro h
    by_contra hnot
    by_cases heq : t = s
    · subst heq
      exact List.lt_irrefl _ h
    · exact List.lt_asymm h (hmono (Std.lt_of_le_of_ne (String.not_lt.mp hnot) heq))
  · exact hmono

theorem bytes_le_bytes_iff {s t : String} : bytes s ≤ bytes t ↔ s ≤ t :=
  not_congr bytes_lt_bytes_iff

end StackComputer.Text
