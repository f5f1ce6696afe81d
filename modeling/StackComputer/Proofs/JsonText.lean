import Mathlib.Data.List.Chain
import Mathlib.Data.List.TakeWhile
import StackComputer.Json
import StackComputer.Proofs.Numerals

/-! # JSON texts read back

A text spells words if the words stand in it in order, with blanks between them and nothing after a
number that could prolong it. Scanning such a text gives the words, and parsing the words of a value
gives the value. Both layouts spell the words of a value, so a value survives either of them.
-/

namespace StackComputer.Json

theorem hexDigit?_digitChar {n : Nat} (h : n < 16) : hexDigit? (Nat.digitChar n) = some n := by
  revert n
  decide

theorem scanString_plain {c : Char} (hq : c ≠ '"') (hb : c ≠ '\\') (hc : 0x20 ≤ c.toNat)
    (cs : List Char) :
    scanString (c :: cs) = (scanString cs).map fun p => (.char c :: p.1, p.2) := by
  rw [scanString, if_neg (by omega : ¬ c.toNat < 0x20)]
  · exact Option.map_eq_bind.symm
  · exact hq
  · exact fun _ _ _ _ _ h => absurd h hb
  · exact fun _ _ h => absurd h hb

theorem scanString_letter {letter c : Char} (h : escapee? letter = some c) (cs : List Char) :
    scanString ('\\' :: letter :: cs) =
      (scanString cs).map fun p => (.char c :: p.1, p.2) := by
  have hu : letter ≠ 'u' := by
    rintro rfl
    cases h
  rw [scanString, h]
  · exact Option.map_eq_bind.symm
  · exact fun _ _ _ _ _ hc => absurd hc hu

theorem scanString_control {c : Char} (hc : c.toNat < 0x20) (cs : List Char) :
    scanString ('\\' :: 'u' :: '0' :: '0' :: Nat.digitChar (c.toNat / 16) ::
      Nat.digitChar (c.toNat % 16) :: cs) =
      (scanString cs).map fun p => (.char c :: p.1, p.2) := by
  have hz : hexDigit? '0' = some 0 := rfl
  have hcode : 16 * (c.toNat / 16) + c.toNat % 16 = c.toNat := by omega
  have hu : hexUnit? '0' '0' (Nat.digitChar (c.toNat / 16)) (Nat.digitChar (c.toNat % 16)) =
      some (.char c) := by
    simp only [hexUnit?, hz, hexDigit?_digitChar (show c.toNat / 16 < 16 by omega),
      hexDigit?_digitChar (show c.toNat % 16 < 16 by omega)]
    simp [hcode, show ¬ 0xd800 ≤ c.toNat by omega]
  rw [scanString, hu]
  exact Option.map_eq_bind.symm

theorem scanString_escaped (c : Char) (cs : List Char) :
    scanString (escaped c ++ cs) = (scanString cs).map fun p => (.char c :: p.1, p.2) := by
  unfold escaped
  split_ifs with h₁ h₂ h₃ h₄ h₅ h₆ h₇ h₈
  · subst c; exact scanString_letter rfl cs
  · subst c; exact scanString_letter rfl cs
  · subst c; exact scanString_letter rfl cs
  · subst c; exact scanString_letter rfl cs
  · subst c; exact scanString_letter rfl cs
  · subst c; exact scanString_letter rfl cs
  · subst c; exact scanString_letter rfl cs
  · exact scanString_control h₈ cs
  · exact scanString_plain h₁ h₂ (by omega) cs

theorem scanString_quoted (cs rest : List Char) :
    scanString (cs.flatMap escaped ++ '"' :: rest) = some (cs.map .char, rest) := by
  induction cs with
  | nil => simp [scanString]
  | cons c cs ih =>
    rw [List.flatMap_cons, List.append_assoc, scanString_escaped, ih]
    rfl

theorem joinUnits?_chars (cs : List Char) : joinUnits? (cs.map .char) = some cs := by
  induction cs with
  | nil => rfl
  | cons c cs ih => simp [joinUnits?, ih]

def prolongs (c : Char) : Bool := c.isDigit || c = '.' || c = 'e' || c = 'E'

def NumberEnds (rest : List Char) : Prop := ∀ c ∈ rest.head?, prolongs c = false

theorem scanFraction?_of_numberEnds {rest : List Char} (h : NumberEnds rest) :
    scanFraction? rest = some (false, rest) := by
  unfold scanFraction?
  split
  · have := h '.' (by simp)
    simp [prolongs] at this
  · rfl

theorem scanExponent?_of_numberEnds {rest : List Char} (h : NumberEnds rest) :
    scanExponent? rest = some (false, rest) := by
  unfold scanExponent?
  split
  · have := h 'e' (by simp)
    simp [prolongs] at this
  · have := h 'E' (by simp)
    simp [prolongs] at this
  · rfl

theorem scanDigits?_digits (ds : List Char) {rest : List Char} (hne : ds ≠ [])
    (hds : ∀ c ∈ ds, c.isDigit = true) (h : NumberEnds rest) :
    scanDigits? (ds ++ rest) = some (ds, rest) := by
  have hr : ∀ c ∈ rest.head?, c.isDigit = false := by
    intro c hc
    have := h c hc
    simp only [prolongs, Bool.or_eq_false_iff] at this
    exact this.1.1.1
  have htake : (ds ++ rest).takeWhile Char.isDigit = ds := by
    rw [List.takeWhile_append_of_pos hds]
    cases rest with
    | nil => simp
    | cons c rest => simp [hr c (by simp)]
  have hdrop : (ds ++ rest).dropWhile Char.isDigit = rest := by
    rw [List.dropWhile_append_of_pos hds]
    cases rest with
    | nil => simp
    | cons c rest => simp [hr c (by simp)]
  unfold scanDigits?
  rw [htake, hdrop]
  cases ds with
  | nil => exact absurd rfl hne
  | cons d ds => rfl

theorem scanWhole?_toDigits (n : Nat) {rest : List Char} (h : NumberEnds rest) :
    scanWhole? (Nat.toDigits 10 n ++ rest) = some (n, rest) := by
  by_cases hn : n = 0
  · subst n
    rw [Nat.toDigits_zero]
    rfl
  · have hd := scanDigits?_digits _ Nat.toDigits_ne_nil
      (fun _ hc => Text.digit_of_mem_toDigits (n := n) hc) h
    unfold scanWhole?
    split
    · rename_i rest' heq
      obtain ⟨d, ds, hds⟩ := List.exists_cons_of_ne_nil (Nat.toDigits_ne_nil (n := n) (b := 10))
      rw [hds] at heq
      cases heq
      exact absurd rfl (Text.head_toDigits_ne_zero (n := n) (by omega) (by rw [hds]; rfl))
    · rw [hd]
      simp

theorem scanNumber?_toDigits (negative : Bool) (n : Nat) (hz : negative = true → n ≠ 0)
    {rest : List Char} (h : NumberEnds rest) :
    scanNumber? negative (Nat.toDigits 10 n ++ rest) =
      some (.integer (if negative then -n else n), rest) := by
  simp only [scanNumber?, scanWhole?_toDigits n h, scanFraction?_of_numberEnds h,
    scanExponent?_of_numberEnds h, Option.bind_eq_bind, Option.bind_some]
  cases negative with
  | false => simp
  | true => simp [hz rfl]

theorem digit_ne {d c : Char} (hd : d.isDigit = true) (hc : c.isDigit = false) : d ≠ c := by
  rintro rfl
  simp [hd] at hc

theorem scanToken?_digit {d : Char} (hd : d.isDigit = true) (cs : List Char) :
    scanToken? (d :: cs) = scanNumber? false (d :: cs) := by
  have hne : ∀ c : Char, c.isDigit = false → ∀ rest : List Char, d :: cs = c :: rest → False :=
    fun c hc _ h => digit_ne hd hc (List.cons.inj h).1
  exact scanToken?.eq_12 (d :: cs) (hne _ rfl) (hne _ rfl) (hne _ rfl) (hne _ rfl) (hne _ rfl)
    (hne _ rfl) (fun _ => hne _ rfl _) (fun _ => hne _ rfl _) (fun _ => hne _ rfl _) (hne _ rfl)
    (hne _ rfl)

def Token.isNumber : Token → Bool
  | .integer _ | .real => true
  | _ => false

theorem scanToken?_integer (i : Int) {rest : List Char} (h : NumberEnds rest) :
    scanToken? (i.repr.toList ++ rest) = some (.integer i, rest) := by
  cases i with
  | ofNat n =>
    obtain ⟨d, ds, hds⟩ := List.exists_cons_of_ne_nil (Nat.toDigits_ne_nil (n := n) (b := 10))
    have hd : d.isDigit = true := Text.digit_of_mem_toDigits (n := n) (by simp [hds])
    have hs := scanNumber?_toDigits false n (by simp) h
    change scanToken? (n.repr.toList ++ rest) = _
    rw [Nat.toList_repr]
    rw [hds, List.cons_append] at hs ⊢
    rw [scanToken?_digit hd, hs]
    rfl
  | negSucc n =>
    have hs := scanNumber?_toDigits true (n + 1) (by simp) h
    have hr : (Int.negSucc n).repr.toList = '-' :: Nat.toDigits 10 (n + 1) := by
      rw [← Nat.toList_repr]
      simp [Int.repr]
    rw [hr, List.cons_append, scanToken?, hs]
    rfl

theorem scanToken?_string (text : Option String) (rest : List Char) :
    scanToken? ((Token.string text).spelling ++ rest) = some (.string text, rest) := by
  cases text with
  | none => rfl
  | some text =>
    simp only [Token.spelling, List.cons_append, List.append_assoc, List.nil_append, scanToken?,
      scanString_quoted, Option.map_some, joinUnits?_chars, String.ofList_toList]

/-- A word is read back from its spelling, if nothing prolongs it. -/
theorem scanToken?_spelling (t : Token) {rest : List Char}
    (h : t.isNumber = true → NumberEnds rest) :
    scanToken? (t.spelling ++ rest) = some (t, rest) := by
  cases t with
  | integer i => exact scanToken?_integer i (h rfl)
  | string text => exact scanToken?_string text rest
  | bool b => cases b <;> rfl
  | real =>
    have hd := scanDigits?_digits ['0'] (by simp) (by simp) (h rfl)
    change scanNumber? false ('0' :: '.' :: (['0'] ++ rest)) = _
    simp only [scanNumber?, scanWhole?, scanFraction?, hd, scanExponent?_of_numberEnds (h rfl),
      Option.bind_eq_bind, Option.bind_some, Option.map_some]
    rfl
  | _ => rfl

/-- A word starts with a character that is no blank and, unless it is a number, prolongs none. -/
theorem exists_spelling_eq_cons (t : Token) :
    ∃ c cs, t.spelling = c :: cs ∧ isSpace c = false ∧
      (t.isNumber = false → prolongs c = false) := by
  cases t with
  | integer i =>
    cases i with
    | ofNat n =>
      obtain ⟨d, ds, hds⟩ := List.exists_cons_of_ne_nil (Nat.toDigits_ne_nil (n := n) (b := 10))
      have hd : d.isDigit = true := Text.digit_of_mem_toDigits (n := n) (by simp [hds])
      refine ⟨d, ds, ?_, ?_, by simp [Token.isNumber]⟩
      · change n.repr.toList = _
        rw [Nat.toList_repr, hds]
      · simp [isSpace, digit_ne hd (c := ' ') rfl, digit_ne hd (c := '\t') rfl,
          digit_ne hd (c := '\n') rfl, digit_ne hd (c := '\r') rfl]
    | negSucc n =>
      exact ⟨'-', (n + 1).repr.toList, by simp [Token.spelling, Int.repr], rfl, fun _ => rfl⟩
  | bool b => cases b <;> exact ⟨_, _, rfl, rfl, fun _ => rfl⟩
  | string text => cases text <;> exact ⟨_, _, rfl, rfl, fun _ => rfl⟩
  | real => exact ⟨_, _, rfl, rfl, by simp [Token.isNumber]⟩
  | _ => exact ⟨_, _, rfl, rfl, fun _ => rfl⟩

theorem numberEnds_spelling {t : Token} (h : t.isNumber = false) (rest : List Char) :
    NumberEnds (t.spelling ++ rest) := by
  obtain ⟨c, cs, hsp, -, hc⟩ := exists_spelling_eq_cons t
  intro c' hc'
  rw [hsp] at hc'
  cases hc'
  exact hc h

inductive Spells : List Token → List Char → Prop where
  | done {blanks : List Char} : blanks.all isSpace → Spells [] blanks
  | word {blanks : List Char} {t : Token} {ts : List Token} {rest : List Char} :
      blanks.all isSpace → (t.isNumber = true → NumberEnds rest) → Spells ts rest →
      Spells (t :: ts) (blanks ++ (t.spelling ++ rest))

theorem scanTokens?_of_spells {ts : List Token} {cs : List Char} (h : Spells ts cs) {fuel : Nat}
    (hf : cs.length < fuel) : scanTokens? fuel cs = some ts := by
  induction h generalizing fuel with
  | @done blanks hb =>
    cases fuel with
    | zero => omega
    | succ fuel =>
      have hd := List.dropWhile_eq_nil_iff.mpr (List.all_eq_true.mp hb)
      simp [scanTokens?, hd]
  | @word blanks t ts rest hb hn _ ih =>
    cases fuel with
    | zero => omega
    | succ fuel =>
      obtain ⟨c, cs, hsp, hc, -⟩ := exists_spelling_eq_cons t
      have hrest : rest.length < fuel := by
        simp only [hsp, List.length_append, List.length_cons] at hf
        omega
      have hd : (blanks ++ (t.spelling ++ rest)).dropWhile isSpace = t.spelling ++ rest := by
        rw [List.dropWhile_append_of_pos (List.all_eq_true.mp hb), hsp]
        simp [hc]
      have hscan := scanToken?_spelling t hn
      simp only [scanTokens?, hd]
      rw [hsp, List.cons_append] at hscan ⊢
      simp only [hscan, Option.bind_eq_bind, Option.bind_some, ih hrest]
      rfl

theorem tokens?_of_spells {ts : List Token} {cs : List Char} (h : Spells ts cs) :
    tokens? cs = some ts :=
  scanTokens?_of_spells h (Nat.lt_succ_self _)

theorem Spells.next {t : Token} {ts : List Token} {rest : List Char}
    (hn : t.isNumber = true → NumberEnds rest) (h : Spells ts rest) :
    Spells (t :: ts) (t.spelling ++ rest) := by
  have hb : ([] : List Char).all isSpace := rfl
  exact .word hb hn h

theorem Spells.after_blanks {ts : List Token} (blanks : List Char) {cs : List Char}
    (hb : blanks.all isSpace) (h : Spells ts cs) : Spells ts (blanks ++ cs) := by
  cases h with
  | done hb' => exact .done (by simp [hb, hb'])
  | word hb' hn hr =>
    rw [← List.append_assoc]
    exact .word (by simp [hb, hb']) hn hr

def NoNumberFirst (ts : List Token) : Prop := ∀ t ∈ ts.head?, t.isNumber = false

def Apart (ts : List Token) : Prop :=
  ts.IsChain fun t u => t.isNumber = true → u.isNumber = false

theorem apart_cons {t : Token} {ts : List Token} :
    Apart (t :: ts) ↔ (t.isNumber = true → NoNumberFirst ts) ∧ Apart ts := by
  unfold Apart NoNumberFirst
  rw [List.isChain_cons]
  constructor
  · rintro ⟨h, hts⟩
    exact ⟨fun ht u hu => h u hu ht, hts⟩
  · rintro ⟨h, hts⟩
    exact ⟨fun u hu ht => h ht u hu, hts⟩

theorem numberEnds_compact {ts : List Token} (h : NoNumberFirst ts) :
    NumberEnds (compact ts) := by
  cases ts with
  | nil => intro c hc; cases hc
  | cons t ts =>
    rw [compact, List.flatMap_cons]
    exact numberEnds_spelling (h t rfl) _

theorem spells_compact {ts : List Token} (h : Apart ts) : Spells ts (compact ts) := by
  induction ts with
  | nil => exact .done rfl
  | cons t ts ih =>
    obtain ⟨ht, hts⟩ := apart_cons.mp h
    exact .next (fun hn => numberEnds_compact (ht hn)) (ih hts)

theorem all_isSpace_newline (depth : Nat) : (newline depth).all isSpace := by
  simp [newline, isSpace]

theorem numberEnds_indented (depth : Nat) {ts : List Token} (h : NoNumberFirst ts) :
    NumberEnds (indented depth ts) := by
  unfold indented
  split
  case h_1 => intro c hc; cases hc
  case h_10 => exact numberEnds_spelling (h _ rfl) _
  all_goals intro c hc; cases hc; rfl

theorem spells_indented (depth : Nat) {ts : List Token} (h : Apart ts) :
    Spells ts (indented depth ts) := by
  fun_induction indented depth ts with
  | case1 depth => exact .done rfl
  | case2 depth ts ih | case3 depth ts ih =>
    have hts := (apart_cons.mp (apart_cons.mp h).2).2
    exact .next nofun (.next nofun (ih hts))
  | case4 depth ts _ ih | case5 depth ts _ ih =>
    have hts := (apart_cons.mp h).2
    exact .next nofun ((ih hts).after_blanks _ (all_isSpace_newline _))
  | case6 depth ts ih | case7 depth ts ih =>
    have hts := (apart_cons.mp h).2
    exact .word (all_isSpace_newline _) nofun (ih hts)
  | case8 depth ts ih =>
    have hts := (apart_cons.mp h).2
    exact .next nofun ((ih hts).after_blanks _ (all_isSpace_newline _))
  | case9 depth ts ih =>
    have hts := (apart_cons.mp h).2
    exact .next nofun ((ih hts).after_blanks [' '] rfl)
  | case10 depth t ts _ _ _ _ _ _ _ _ ih =>
    obtain ⟨ht, hts⟩ := apart_cons.mp h
    exact .next (fun hn => numberEnds_indented _ (ht hn)) (ih hts)

theorem itemTokens_cons (v : Value) {vs : List Value} (h : vs ≠ []) :
    itemTokens (v :: vs) = v.tokens ++ .comma :: itemTokens vs := by
  cases vs with
  | nil => exact absurd rfl h
  | cons w ws => simp only [itemTokens]

theorem memberTokens_cons (key : Option String) (v : Value)
    {ms : List (Option String × Value)} (h : ms ≠ []) :
    memberTokens ((key, v) :: ms) =
      .string key :: .colon :: (v.tokens ++ .comma :: memberTokens ms) := by
  cases ms with
  | nil => exact absurd rfl h
  | cons m ms => simp only [memberTokens, List.cons_append]

mutual

theorem apart_tokens : ∀ (v : Value) {ts : List Token}, NoNumberFirst ts → Apart ts →
    Apart (v.tokens ++ ts)
  | .null, _, _, h => apart_cons.mpr ⟨nofun, h⟩
  | .bool _, _, _, h => apart_cons.mpr ⟨nofun, h⟩
  | .integer _, _, hn, h => apart_cons.mpr ⟨fun _ => hn, h⟩
  | .real, _, hn, h => apart_cons.mpr ⟨fun _ => hn, h⟩
  | .string _, _, _, h => apart_cons.mpr ⟨nofun, h⟩
  | .array items, ts, _, h => by
    simp only [Value.tokens, List.cons_append, List.append_assoc, List.nil_append]
    exact apart_cons.mpr ⟨nofun, apart_itemTokens items h⟩
  | .object members, ts, _, h => by
    simp only [Value.tokens, List.cons_append, List.append_assoc, List.nil_append]
    exact apart_cons.mpr ⟨nofun, apart_memberTokens members h⟩

theorem apart_itemTokens : ∀ (vs : List Value) {ts : List Token}, Apart ts →
    Apart (itemTokens vs ++ .closeArray :: ts)
  | [], _, h => apart_cons.mpr ⟨nofun, h⟩
  | [v], _, h => apart_tokens v (by rintro _ ⟨⟩; rfl) (apart_cons.mpr ⟨nofun, h⟩)
  | v :: w :: vs, ts, h => by
    rw [itemTokens_cons v (by simp), List.append_assoc, List.cons_append]
    exact apart_tokens v (by rintro _ ⟨⟩; rfl)
      (apart_cons.mpr ⟨nofun, apart_itemTokens (w :: vs) h⟩)

theorem apart_memberTokens : ∀ (ms : List (Option String × Value)) {ts : List Token}, Apart ts →
    Apart (memberTokens ms ++ .closeObject :: ts)
  | [], _, h => apart_cons.mpr ⟨nofun, h⟩
  | [(_, v)], _, h =>
    apart_cons.mpr ⟨nofun, apart_cons.mpr ⟨nofun,
      apart_tokens v (by rintro _ ⟨⟩; rfl) (apart_cons.mpr ⟨nofun, h⟩)⟩⟩
  | (key, v) :: m :: ms, ts, h => by
    rw [memberTokens_cons key v (by simp), List.cons_append, List.cons_append, List.append_assoc,
      List.cons_append]
    exact apart_cons.mpr ⟨nofun, apart_cons.mpr ⟨nofun,
      apart_tokens v (by rintro _ ⟨⟩; rfl)
        (apart_cons.mpr ⟨nofun, apart_memberTokens (m :: ms) h⟩)⟩⟩

end

/-- The words of a value do not start with a closing bracket. -/
theorem exists_tokens_eq_cons (v : Value) :
    ∃ t ts, v.tokens = t :: ts ∧ t ≠ .closeArray := by
  cases v <;> simp [Value.tokens]

theorem exists_itemTokens_eq_cons (v : Value) (vs : List Value) :
    ∃ t ts, itemTokens (v :: vs) = t :: ts ∧ t ≠ .closeArray := by
  obtain ⟨t, ts, hv, ht⟩ := exists_tokens_eq_cons v
  cases vs with
  | nil => exact ⟨t, ts, by simpa [itemTokens] using hv, ht⟩
  | cons w vs =>
    rw [itemTokens_cons v (by simp), hv, List.cons_append]
    exact ⟨t, _, rfl, ht⟩

theorem exists_memberTokens_eq_cons (m : Option String × Value)
    (ms : List (Option String × Value)) :
    ∃ ts, memberTokens (m :: ms) = .string m.1 :: ts := by
  cases ms <;> simp [memberTokens]

theorem value?_array (fuel : Nat) {t : Token} (ht : t ≠ .closeArray) (ts : List Token) :
    value? (fuel + 1) (.openArray :: t :: ts) =
      (items? fuel (t :: ts)).map fun p => (.array p.1, p.2) := by
  rw [value?]
  exact fun _ h => absurd (List.cons.inj h).1 ht

/-- Parsing gives back what was written and leaves what follows. The fuel only has to cover the
words, since every call on the way takes one of them. -/
theorem parses_back (fuel : Nat) :
    (∀ (v : Value) (ts : List Token), v.tokens.length ≤ fuel →
      value? fuel (v.tokens ++ ts) = some (v, ts)) ∧
    (∀ (vs : List Value) (ts : List Token), vs ≠ [] → (itemTokens vs).length < fuel →
      items? fuel (itemTokens vs ++ .closeArray :: ts) = some (vs, ts)) ∧
    (∀ (ms : List (Option String × Value)) (ts : List Token), ms ≠ [] →
      (memberTokens ms).length < fuel →
      members? fuel (memberTokens ms ++ .closeObject :: ts) = some (ms, ts)) := by
  induction fuel with
  | zero =>
    refine ⟨fun v ts h => ?_, nofun, nofun⟩
    obtain ⟨t, ts', hv, -⟩ := exists_tokens_eq_cons v
    simp [hv] at h
  | succ fuel ih =>
    obtain ⟨ihv, ihi, ihm⟩ := ih
    refine ⟨?_, ?_, ?_⟩
    · intro v ts h
      cases v with
      | null | bool | integer | real | string => rfl
      | array items =>
        simp only [Value.tokens, List.cons_append, List.append_assoc, List.nil_append,
          List.length_cons, List.length_append] at h ⊢
        cases items with
        | nil => rfl
        | cons v vs =>
          have hi := ihi (v :: vs) ts (by simp) (by omega)
          obtain ⟨t, ts', hts, ht⟩ := exists_itemTokens_eq_cons v vs
          rw [hts, List.cons_append] at hi ⊢
          rw [value?_array fuel ht, hi]
          rfl
      | object members =>
        simp only [Value.tokens, List.cons_append, List.append_assoc, List.nil_append,
          List.length_cons, List.length_append] at h ⊢
        cases members with
        | nil => rfl
        | cons m ms =>
          have hm := ihm (m :: ms) ts (by simp) (by omega)
          obtain ⟨ts', hts⟩ := exists_memberTokens_eq_cons m ms
          rw [hts, List.cons_append] at hm ⊢
          rw [value?, hm]
          · rfl
          · exact fun _ h => by cases h
    · intro vs ts hne h
      match vs with
      | [v] =>
        simp only [itemTokens] at h ⊢
        rw [items?, ihv v (.closeArray :: ts) (by omega)]
      | v :: w :: vs =>
        rw [itemTokens_cons v (by simp)] at h ⊢
        simp only [List.append_assoc, List.cons_append, List.length_append,
          List.length_cons] at h ⊢
        rw [items?, ihv v _ (by omega)]
        simp only [ihi (w :: vs) ts (by simp) (by omega), Option.map_some]
    · intro ms ts hne h
      match ms with
      | [(key, v)] =>
        simp only [memberTokens, List.cons_append, List.length_cons] at h ⊢
        rw [members?, ihv v (.closeObject :: ts) (by omega)]
      | (key, v) :: m :: ms =>
        rw [memberTokens_cons key v (by simp)] at h ⊢
        simp only [List.append_assoc, List.cons_append, List.length_append,
          List.length_cons] at h ⊢
        rw [members?, ihv v _ (by omega)]
        simp only [ihm (m :: ms) ts (by simp) (by omega), Option.map_some]

theorem parse?_of_spells {v : Value} {text : String} (h : Spells v.tokens text.toList) :
    parse? text = some v := by
  have hv := (parses_back (2 * v.tokens.length + 1)).1 v [] (by omega)
  rw [List.append_nil] at hv
  rw [parse?, tokens?_of_spells h]
  simp only [hv]

theorem apart_value (v : Value) : Apart v.tokens := by
  have h : Apart (v.tokens ++ []) := apart_tokens v nofun .nil
  rwa [List.append_nil] at h

theorem parse?_compact (v : Value) : parse? v.compact = some v :=
  parse?_of_spells (by
    rw [Value.compact, String.toList_ofList]
    exact spells_compact (apart_value v))

theorem parse?_pretty (v : Value) : parse? v.pretty = some v :=
  parse?_of_spells (by
    rw [Value.pretty, String.toList_ofList]
    exact spells_indented 0 (apart_value v))

end StackComputer.Json
