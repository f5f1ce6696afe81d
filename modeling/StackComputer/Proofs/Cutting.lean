import Mathlib.Data.List.Basic
import StackComputer.Text

/-! # Cutting text

What the ways of cutting a text say about it: the blanks at its two ends, the words between blanks
and the lines.
-/

namespace StackComputer.Text

def Blanks (cs : List Char) : Prop := ∀ c ∈ cs, isBlank c = true

theorem Blanks.reverse {cs : List Char} (h : Blanks cs) : Blanks cs.reverse := by
  intro c hc
  exact h c (List.mem_reverse.mp hc)

structure Tight (cs : List Char) : Prop where
  head : ∀ c, cs.head? = some c → isBlank c = false
  last : ∀ c, cs.getLast? = some c → isBlank c = false

def TrimsTo (raw text : List Char) : Prop :=
  Tight text ∧ ∃ lead tail, raw = lead ++ text ++ tail ∧ Blanks lead ∧ Blanks tail

theorem Tight.reverse {cs : List Char} (h : Tight cs) : Tight cs.reverse := by
  constructor
  · intro c hc
    exact h.last c (by simpa using hc)
  · intro c hc
    exact h.head c (by simpa using hc)

theorem Tight.eq_nil_of_lead {lead cs : List Char} (h : Tight (lead ++ cs)) (hlead : Blanks lead) :
    lead = [] := by
  cases lead with
  | nil => rfl
  | cons c lead =>
    have hblank := hlead c List.mem_cons_self
    rw [h.head c rfl] at hblank
    cases hblank

theorem Tight.eq_nil_of_tail {cs tail : List Char} (h : Tight (cs ++ tail)) (htail : Blanks tail) :
    tail = [] := by
  have hreverse : Tight (tail.reverse ++ cs.reverse) := by
    rw [← List.reverse_append]
    exact h.reverse
  exact List.reverse_eq_nil_iff.mp (hreverse.eq_nil_of_lead htail.reverse)

theorem tight_of_forall {cs : List Char} (h : ∀ c ∈ cs, isBlank c = false) : Tight cs := by
  constructor
  · intro c hc
    exact h c (List.mem_of_head? hc)
  · intro c hc
    exact h c (List.mem_of_getLast? hc)

/-- Blanks at the front are dropped, and nothing else if a tight text follows. -/
theorem dropWhile_blanks_append {lead text : List Char} (hl : Blanks lead)
    (ht : ∀ c, text.head? = some c → isBlank c = false) :
    (lead ++ text).dropWhile isBlank = text := by
  rw [List.dropWhile_append_of_pos hl]
  cases text with
  | nil => rfl
  | cons c cs => simp [ht c rfl]

theorem dropWhile_blanks {cs : List Char} (h : Blanks cs) : cs.dropWhile isBlank = [] := by
  have happend : (cs ++ []).dropWhile isBlank = [] := dropWhile_blanks_append h nofun
  rwa [List.append_nil] at happend

theorem trim_of_trimsTo {raw text : List Char} (h : TrimsTo raw text) : trim raw = text := by
  obtain ⟨ht, lead, tail, rfl, hl, htail⟩ := h
  cases text with
  | nil =>
    have hblanks : Blanks (lead ++ [] ++ tail) := by
      intro c hc
      rw [List.append_nil, List.mem_append] at hc
      exact hc.elim (hl c) (htail c)
    rw [trim, dropWhile_blanks hblanks]
    rfl
  | cons c cs =>
    have hfront : (lead ++ (c :: cs ++ tail)).dropWhile isBlank = c :: cs ++ tail :=
      dropWhile_blanks_append hl ht.head
    have hback : (tail.reverse ++ (c :: cs).reverse).dropWhile isBlank = (c :: cs).reverse :=
      dropWhile_blanks_append htail.reverse ht.reverse.head
    rw [trim, List.append_assoc, hfront, List.reverse_append, hback, List.reverse_reverse]

theorem exists_blanks_append (cs : List Char) :
    ∃ lead, cs = lead ++ cs.dropWhile isBlank ∧ Blanks lead ∧
      ∀ c, (cs.dropWhile isBlank).head? = some c → isBlank c = false := by
  refine ⟨cs.takeWhile isBlank, List.takeWhile_append_dropWhile.symm, ?_, ?_⟩
  · intro c hc
    exact List.all_eq_true.mp List.all_takeWhile c hc
  · intro c hc
    have hnot := List.head?_dropWhile_not isBlank cs
    rwa [hc] at hnot

theorem trimsTo_trim (raw : List Char) : TrimsTo raw (trim raw) := by
  obtain ⟨lead, hraw, hlead, hhead⟩ := exists_blanks_append raw
  obtain ⟨tail, hrest, htail, hlast⟩ := exists_blanks_append (raw.dropWhile isBlank).reverse
  have hcut : raw.dropWhile isBlank = trim raw ++ tail.reverse := by
    rw [← List.reverse_reverse (raw.dropWhile isBlank), hrest, List.reverse_append]
    rfl
  refine ⟨⟨?_, ?_⟩, lead, tail.reverse, ?_, hlead, htail.reverse⟩
  · intro c hc
    apply hhead
    rw [hcut, List.head?_append, hc]
    rfl
  · intro c hc
    apply hlast
    rw [← List.getLast?_reverse]
    exact hc
  · rw [List.append_assoc, ← hcut]
    exact hraw

theorem trim_eq_iff {raw text : List Char} : trim raw = text ↔ TrimsTo raw text := by
  constructor
  · rintro rfl
    exact trimsTo_trim raw
  · exact trim_of_trimsTo

theorem trim_eq_self {cs : List Char} (h : ∀ c ∈ cs, isBlank c = false) : trim cs = cs :=
  trim_of_trimsTo ⟨tight_of_forall h, [], [], by simp, nofun, nofun⟩

theorem TrimsTo.eq_or_longer {raw text : List Char} (h : TrimsTo raw text) :
    raw = text ∨ text.length < raw.length := by
  obtain ⟨-, lead, tail, rfl, -, -⟩ := h
  by_cases hblanks : lead = [] ∧ tail = []
  · obtain ⟨rfl, rfl⟩ := hblanks
    exact .inl (by simp)
  · rw [← List.append_eq_nil_iff, ← List.length_eq_zero_iff, List.length_append] at hblanks
    simp only [List.length_append]
    omega

theorem words_blank_append {c : Char} (hc : isBlank c = true) (front rest : List Char) :
    words (front ++ c :: rest) = words front ++ words rest := by
  rw [words, List.splitOnP_append_cons front rest hc, List.filter_append]
  rfl

theorem words_blank_cons {c : Char} (hc : isBlank c = true) (rest : List Char) :
    words (c :: rest) = words rest :=
  words_blank_append hc [] rest

theorem words_blanks_append {lead : List Char} (h : Blanks lead) (rest : List Char) :
    words (lead ++ rest) = words rest := by
  induction lead with
  | nil => rfl
  | cons c lead ih =>
    have hc : isBlank c = true := h c List.mem_cons_self
    rw [List.cons_append, words_blank_cons hc]
    exact ih fun d hd => h d (List.mem_cons_of_mem c hd)

structure IsWord (w : List Char) : Prop where
  ne_nil : w ≠ []
  not_blank : ∀ c ∈ w, isBlank c = false

theorem isWord_iff {w : List Char} :
    IsWord w ↔ w ≠ [] ∧ (w.all fun c => !isBlank c) = true := by
  simp only [List.all_eq_true, Bool.not_eq_true']
  exact ⟨fun h => ⟨h.ne_nil, h.not_blank⟩, fun h => ⟨h.1, h.2⟩⟩

instance (w : List Char) : Decidable (IsWord w) := decidable_of_iff _ isWord_iff.symm

theorem IsWord.words_eq {w : List Char} (h : IsWord w) : words w = [w] := by
  rw [words, List.splitOnP_eq_singleton h.not_blank]
  simp [h.ne_nil]

/-- A text is over or goes on with a blank. -/
def AtBlank (cs : List Char) : Prop := ∀ c, cs.head? = some c → isBlank c = true

theorem IsWord.words_append {w rest : List Char} (h : IsWord w) (hrest : AtBlank rest) :
    words (w ++ rest) = w :: words rest := by
  cases rest with
  | nil =>
    rw [List.append_nil, h.words_eq]
    rfl
  | cons c rest =>
    have hc : isBlank c = true := hrest c rfl
    rw [words_blank_append hc, h.words_eq, words_blank_cons hc]
    rfl

theorem exists_word_append {c : Char} (hc : isBlank c = false) (cs : List Char) :
    ∃ w rest, c :: cs = w ++ rest ∧ IsWord w ∧ AtBlank rest := by
  let nonBlank : Char → Bool := fun c => !isBlank c
  refine ⟨(c :: cs).takeWhile nonBlank, (c :: cs).dropWhile nonBlank,
    List.takeWhile_append_dropWhile.symm, ⟨?_, ?_⟩, ?_⟩
  · simp [nonBlank, hc]
  · intro d hd
    simpa [nonBlank] using List.all_eq_true.mp List.all_takeWhile d hd
  · intro d hd
    have hnot := List.head?_dropWhile_not nonBlank (c :: cs)
    rw [hd] at hnot
    simpa [nonBlank] using hnot

theorem blanks_of_words_eq_nil {cs : List Char} (h : words cs = []) : Blanks cs := by
  obtain ⟨lead, hcs, hlead, hhead⟩ := exists_blanks_append cs
  rw [hcs] at h ⊢
  rw [words_blanks_append hlead] at h
  cases hbody : cs.dropWhile isBlank with
  | nil => rwa [List.append_nil]
  | cons c body =>
    rw [hbody] at h hhead
    obtain ⟨w, rest, hword, hw, hrest⟩ := exists_word_append (hhead c rfl) body
    rw [hword, hw.words_append hrest] at h
    cases h

theorem exists_first_word {cs w : List Char} {ws : List (List Char)} (h : words cs = w :: ws) :
    ∃ lead rest, cs = lead ++ (w ++ rest) ∧ Blanks lead ∧ IsWord w ∧ AtBlank rest ∧
      words rest = ws := by
  obtain ⟨lead, hcs, hlead, hhead⟩ := exists_blanks_append cs
  rw [hcs, words_blanks_append hlead] at h
  cases hbody : cs.dropWhile isBlank with
  | nil =>
    rw [hbody] at h
    cases h
  | cons c body =>
    rw [hbody] at h hhead
    obtain ⟨v, rest, hword, hv, hrest⟩ := exists_word_append (hhead c rfl) body
    rw [hword, hv.words_append hrest] at h
    cases h
    refine ⟨lead, rest, ?_, hlead, hv, hrest, rfl⟩
    rw [← hword, ← hbody]
    exact hcs

theorem Tight.eq_of_words {cs w : List Char} (hcs : Tight cs) (h : words cs = [w]) :
    cs = w ∧ IsWord w := by
  obtain ⟨lead, rest, rfl, hlead, hw, -, hrest⟩ := exists_first_word h
  obtain rfl : lead = [] := hcs.eq_nil_of_lead hlead
  rw [List.nil_append] at hcs
  obtain rfl : rest = [] := hcs.eq_nil_of_tail (blanks_of_words_eq_nil hrest)
  exact ⟨List.append_nil w, hw⟩

theorem Tight.eq_of_two_words {cs v w : List Char} (hcs : Tight cs) (h : words cs = [v, w]) :
    ∃ gap, cs = v ++ gap ++ w ∧ gap ≠ [] ∧ Blanks gap ∧ IsWord v ∧ IsWord w := by
  obtain ⟨lead, rest, rfl, hlead, hv, hat, hrest⟩ := exists_first_word h
  obtain ⟨gap, tail, rfl, hgap, hw, -, htail⟩ := exists_first_word hrest
  obtain rfl : lead = [] := hcs.eq_nil_of_lead hlead
  rw [List.nil_append, ← List.append_assoc, ← List.append_assoc] at hcs
  obtain rfl : tail = [] := hcs.eq_nil_of_tail (blanks_of_words_eq_nil htail)
  refine ⟨gap, by simp, ?_, hgap, hv, hw⟩
  -- two words without a blank between them would be one
  rintro rfl
  obtain ⟨c, w, rfl⟩ := List.exists_cons_of_ne_nil hw.ne_nil
  have hblank : isBlank c = true := hat c rfl
  rw [hw.not_blank c List.mem_cons_self] at hblank
  cases hblank

theorem words_of_two_words {v gap w : List Char} (hv : IsWord v) (hgap : gap ≠ [])
    (hblanks : Blanks gap) (hw : IsWord w) : words (v ++ gap ++ w) = [v, w] := by
  have hat : AtBlank (gap ++ w) := by
    obtain ⟨c, gap, rfl⟩ := List.exists_cons_of_ne_nil hgap
    rintro d ⟨⟩
    exact hblanks c List.mem_cons_self
  rw [List.append_assoc, hv.words_append hat, words_blanks_append hblanks, hw.words_eq]

/-- Whatever stands between two words, there are no blanks around them. -/
theorem IsWord.tight_append {v gap w : List Char} (hv : IsWord v) (hw : IsWord w) :
    Tight (v ++ gap ++ w) := by
  constructor
  · intro c hc
    rw [List.append_assoc, List.head?_append_of_ne_nil _ hv.ne_nil] at hc
    exact hv.not_blank c (List.mem_of_head? hc)
  · intro c hc
    rw [List.getLast?_append_of_ne_nil _ hw.ne_nil] at hc
    exact hw.not_blank c (List.mem_of_getLast? hc)

theorem endLines_append (pieces : List (List Char)) {rest : List (List Char)} (h : rest ≠ []) :
    endLines (pieces ++ rest) = pieces.map dropReturn ++ endLines rest := by
  induction pieces with
  | nil => rfl
  | cons piece pieces ih =>
    obtain ⟨next, more, hmore⟩ : ∃ next more, pieces ++ rest = next :: more :=
      List.exists_cons_of_ne_nil (List.append_ne_nil_of_right_ne_nil pieces h)
    rw [hmore] at ih
    rw [List.cons_append, hmore, endLines, ih]
    rfl

/-- With a line feed behind it each piece of a text is a line, an empty one at the end included. -/
theorem lines_append_feed (cs rest : List Char) :
    lines (cs ++ '\n' :: rest) = (cs.splitOn '\n').map dropReturn ++ lines rest := by
  have hsplit : (cs ++ '\n' :: rest).splitOn '\n' = cs.splitOn '\n' ++ rest.splitOn '\n' :=
    List.splitOnP_append_cons cs rest rfl
  have hrest : rest.splitOn '\n' ≠ [] := List.splitOnP_ne_nil _ _
  rw [lines, hsplit, endLines_append _ hrest, lines]

theorem splitOn_feed_eq_singleton {line : List Char} (h : '\n' ∉ line) :
    line.splitOn '\n' = [line] := by
  apply List.splitOnP_eq_singleton
  intro c hc
  exact beq_false_of_ne fun heq => h (heq ▸ hc)

theorem lines_eq_singleton {line : List Char} (h : '\n' ∉ line) (hne : line ≠ []) :
    lines line = [line] := by
  rw [lines, splitOn_feed_eq_singleton h, endLines, if_neg (by simpa using hne)]

theorem lines_append {line : List Char} (h : '\n' ∉ line) (rest : List Char) :
    lines (line ++ '\n' :: rest) = dropReturn line :: lines rest := by
  rw [lines_append_feed, splitOn_feed_eq_singleton h]
  rfl

theorem length_splitOn_feed (cs : List Char) :
    (cs.splitOn '\n').length = cs.count '\n' + 1 := by
  induction cs with
  | nil => rfl
  | cons c cs ih =>
    have hcons : (c :: cs).splitOn '\n' = if (c == '\n') = true then [] :: cs.splitOn '\n'
        else (cs.splitOn '\n').modifyHead (c :: ·) :=
      List.splitOnP_cons_eq_if_modifyHead c cs
    rw [hcons, List.count_cons]
    split
    · rw [List.length_cons, ih]
    · rw [List.length_modifyHead, ih]

/-- The first lines of a text are the lines of a front part of it. -/
theorem exists_front_lines (n : Nat) (cs : List Char) :
    ∃ front rest, cs = front ++ rest ∧ lines front = (lines cs).take n := by
  induction n generalizing cs with
  | zero => exact ⟨[], cs, rfl, rfl⟩
  | succ n ih =>
    by_cases hfeed : '\n' ∈ cs
    · obtain ⟨line, rest, rfl, hline⟩ := List.eq_append_cons_of_mem hfeed
      obtain ⟨front, back, rfl, hfront⟩ := ih rest
      refine ⟨line ++ '\n' :: front, back, by simp, ?_⟩
      rw [lines_append hline, lines_append hline, hfront, List.take_succ_cons]
    · -- without a line feed there is one line at most
      refine ⟨cs, [], (List.append_nil cs).symm, ?_⟩
      rw [lines, splitOn_feed_eq_singleton hfeed, endLines]
      split <;> simp

theorem dropReturn_eq_self {line : List Char} (h : '\r' ∉ line) : dropReturn line = line := by
  rw [dropReturn, if_neg]
  intro hlast
  exact h (List.mem_of_getLast? hlast)

end StackComputer.Text
