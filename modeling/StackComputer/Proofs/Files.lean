import Mathlib.Data.List.TakeWhile
import StackComputer.Disk
import StackComputer.Proofs.KeyMaps

/-! # Files after a write and a rename

Writing and renaming replace files by files, so the same places stay directories and every path that
could be followed before leads to the same place afterwards. A path and its temporary sibling lead
to different places, unless they are the same path or the path can mean a directory only.
-/

namespace StackComputer

namespace Disk

theorem node?_of_isPrefixOf {d : Disk} {place : Place} (h : place.isPrefixOf d.working = true) :
    d.node? place = some .directory :=
  if_pos h

theorem node?_clear {d : Disk} {place : Place} (h : d.node? place ≠ some .directory) (q : Place) :
    (d.clear place).node? q = if q = place then none else d.node? q := by
  have hw : place.isPrefixOf d.working = false := by
    by_contra hw
    exact h (node?_of_isPrefixOf (by simpa using hw))
  have hl := lookup_filter_ne q place d.nodes
  by_cases hq : q = place
  · subst q
    simp [node?, clear, hw, hl]
  · simp [node?, clear, hl, hq]

theorem node?_put {d : Disk} {place : Place} (h : d.node? place ≠ some .directory) (node : Node)
    (q : Place) : (d.put place node).node? q = if q = place then some node else d.node? q := by
  have hc := node?_clear h q
  have hw : place.isPrefixOf d.working = false := by
    by_contra hw
    exact h (node?_of_isPrefixOf (by simpa using hw))
  by_cases hq : q = place
  · subst q
    simp [node?, put, hw]
  · rw [if_neg hq] at hc ⊢
    have hl : (d.put place node).nodes.lookup q = (d.clear place).nodes.lookup q := by
      rw [put, lookup_cons_eq_if, if_neg hq]
    rw [← hc, node?, hl]
    rfl

structure SameDirectories (d e : Disk) : Prop where
  working : e.working = d.working
  node : ∀ q, e.node? q = some .directory ↔ d.node? q = some .directory

theorem SameDirectories.symm {d e : Disk} (h : SameDirectories d e) : SameDirectories e d :=
  ⟨h.working.symm, fun q => (h.node q).symm⟩

theorem SameDirectories.trans {d e f : Disk} (h : SameDirectories d e) (k : SameDirectories e f) :
    SameDirectories d f :=
  ⟨k.working.trans h.working, fun q => (k.node q).trans (h.node q)⟩

theorem sameDirectories_outages (d : Disk) (outages : List (Option FileFault)) :
    SameDirectories d { d with outages } :=
  ⟨rfl, fun _ => Iff.rfl⟩

theorem sameDirectories_clear {d : Disk} {place : Place} (h : d.node? place ≠ some .directory) :
    SameDirectories d (d.clear place) := by
  refine ⟨rfl, fun q => ?_⟩
  rw [node?_clear h]
  by_cases hq : q = place
  · subst q
    simp [h]
  · simp [hq]

theorem sameDirectories_put {d : Disk} {place : Place} (h : d.node? place ≠ some .directory)
    (content : Content) : SameDirectories d (d.put place (.file content)) := by
  refine ⟨rfl, fun q => ?_⟩
  rw [node?_put h]
  by_cases hq : q = place
  · subst q
    simp [h]
  · simp [hq]

theorem walk_of_sameDirectories {d e : Disk} (h : SameDirectories d e) {here place : Place}
    {steps : List String} (hw : d.walk here steps = .ok place) : e.walk here steps = .ok place := by
  induction steps generalizing here with
  | nil => exact hw
  | cons step steps ih =>
    cases hn : d.node? here with
    | none => simp [walk, hn] at hw
    | some node =>
      cases node with
      | file content => simp [walk, hn] at hw
      | directory =>
        simp only [walk, hn, (h.node here).mpr hn] at hw ⊢
        split at hw
        · cases hw
        · rename_i hlen
          rw [if_neg hlen]
          exact ih hw

theorem locate_of_sameDirectories {d e : Disk} (h : SameDirectories d e) {path : String}
    {place : Place} (hl : d.locate path = .ok place) : e.locate path = .ok place := by
  unfold locate at hl ⊢
  rw [h.working]
  split_ifs at hl ⊢
  · exact walk_of_sameDirectories h hl
  · exact walk_of_sameDirectories h hl

theorem isAbsence_of_walk {d : Disk} {here : Place} {steps : List String} {fault : FileFault}
    (h : d.walk here steps = .error fault) : fault.isAbsence = true := by
  induction steps generalizing here with
  | nil => cases h
  | cons step steps ih =>
    simp only [walk] at h
    split at h
    · split at h
      · cases h
        rfl
      · exact ih h
    · cases h
      rfl
    · cases h
      rfl

/-- A path that leads nowhere counts as absent, for whatever reason. -/
theorem isAbsence_of_locate {d : Disk} {path : String} {fault : FileFault}
    (h : d.locate path = .error fault) : fault.isAbsence = true := by
  unfold locate at h
  split at h
  · cases h
    rfl
  · split at h
    · cases h
      rfl
    · split at h
      · cases h
        rfl
      · exact isAbsence_of_walk h

end Disk

namespace Path

theorem join_pieces (path : String) : join (pieces path) = path := by
  simp [join, pieces]

theorem slash_not_mem_of_mem_pieces {path : String} {p : List Char} (h : p ∈ pieces path) :
    '/' ∉ p := by
  unfold pieces at h
  generalize path.toList = cs at h
  induction cs generalizing p with
  | nil =>
    have hp : p = [] := by simpa using h
    simp [hp]
  | cons c cs ih =>
    rw [List.splitOn_cons_eq_if_modifyHead] at h
    split at h
    · rcases List.mem_cons.mp h with rfl | h
      · simp
      · exact ih h
    · rename_i hc
      obtain ⟨q, qs, hqs⟩ := List.exists_cons_of_ne_nil (List.splitOn_ne_nil '/' cs)
      rw [hqs, List.modifyHead_cons] at h
      rcases List.mem_cons.mp h with rfl | h
      · have hq : '/' ∉ q := ih (by simp [hqs])
        have hne : '/' ≠ c := fun hs => hc (by simp [← hs])
        simp [hq, hne]
      · exact ih (by simp [hqs, h])

theorem pieces_join {ps : List (List Char)} (hs : ∀ p ∈ ps, '/' ∉ p) (hne : ps ≠ []) :
    pieces (join ps) = ps := by
  rw [pieces, join, String.toList_ofList, List.splitOn_intercalate '/' hs hne]

theorem head?_ne_slash {p : List Char} (h : '/' ∉ p) : p.head? ≠ some '/' := by
  intro hh
  exact h (List.mem_of_mem_head? hh)

theorem head?_intercalate {p : List Char} (hp : p ≠ []) (ps : List (List Char)) :
    (['/'].intercalate (p :: ps)).head? = p.head? := by
  cases ps with
  | nil => simp
  | cons q qs =>
    obtain ⟨c, cs, rfl⟩ := List.exists_cons_of_ne_nil hp
    simp [List.intercalate_cons_cons]

theorem isAbsolute_join {above rest : List (List Char)} {name : List Char}
    (ha : ∀ p ∈ above, '/' ∉ p) (hn : '/' ∉ name) (hne : name ≠ []) :
    isAbsolute (join (above ++ name :: rest)) = decide (above.head? = some []) := by
  rw [isAbsolute, join, String.toList_ofList]
  cases above with
  | nil =>
    rw [List.nil_append, head?_intercalate hne rest]
    simp [head?_ne_slash hn]
  | cons a as =>
    by_cases hempty : a = []
    · subst a
      obtain ⟨q, qs, hqs⟩ := List.exists_cons_of_ne_nil (List.append_ne_nil_of_right_ne_nil as
        (List.cons_ne_nil name rest))
      rw [List.cons_append, hqs, List.intercalate_cons_cons]
      simp
    · rw [List.cons_append, head?_intercalate hempty]
      have := head?_ne_slash (ha a List.mem_cons_self)
      simp [this, hempty]

theorem getLast?_intercalate {ps : List (List Char)} (hne : ps ≠ []) :
    (['/'].intercalate (ps ++ [[]])).getLast? = some '/' := by
  induction ps with
  | nil => exact absurd rfl hne
  | cons q qs ih =>
    cases qs with
    | nil => simp [List.intercalate_cons_cons]
    | cons r rs =>
      rw [List.cons_append, List.cons_append, List.intercalate_cons_cons, ← List.cons_append,
        List.getLast?_append, ih (by simp)]
      rfl

theorem endsInSlash_of_pieces {path : String} {ps : List (List Char)} (hne : ps ≠ [])
    (h : pieces path = ps ++ [[]]) : endsInSlash path = true := by
  rw [endsInSlash, ← join_pieces path, h, join, String.toList_ofList, getLast?_intercalate hne]
  rfl

theorem mem_of_mem_stem {c : Char} {name : List Char} (h : c ∈ stem name) : c ∈ name := by
  unfold stem at h
  split at h
  · rename_i a b before heq
    have hsub : ∀ x ∈ a :: b :: before, x ∈ name := by
      intro x hx
      rw [← heq] at hx
      exact List.mem_reverse.mp ((List.dropWhile_suffix _).mem hx)
    exact hsub c (List.mem_cons_of_mem a (List.mem_reverse.mp h))
  · exact h

/-- A temporary sibling keeps all that stands above the file name, and has one piece after it. -/
theorem temporary_eq_join {path : String} (h : temporary path ≠ path) :
    ∃ above name rest last, pieces path = above ++ name :: rest ∧ (∀ p ∈ rest, isIdle p = true) ∧
      isIdle name = false ∧ name ≠ ['.', '.'] ∧
      temporary path = join (above ++ [last]) ∧ '/' ∉ last ∧ last ≠ [] := by
  have hsplit := List.takeWhile_append_dropWhile (p := isIdle) (l := (pieces path).reverse)
  have hidle : ∀ p ∈ ((pieces path).reverse.takeWhile isIdle).reverse, isIdle p = true := by
    intro p hp
    exact List.mem_takeWhile_imp (List.mem_reverse.mp hp)
  unfold temporary at h ⊢
  split at h
  · exact absurd rfl h
  · rename_i name above heq
    rw [heq] at hsplit
    have hpieces : pieces path
        = above.reverse ++ name :: ((pieces path).reverse.takeWhile isIdle).reverse := by
      have := congrArg List.reverse hsplit
      simpa using this.symm
    have hname : isIdle name = false := by
      have := List.head_dropWhile_not isIdle (l := (pieces path).reverse) (by simp [heq])
      simpa [heq] using this
    have hmem : name ∈ pieces path := by
      rw [hpieces]
      simp
    have hslash : '/' ∉ name := slash_not_mem_of_mem_pieces hmem
    by_cases hdots : name = ['.', '.']
    · rw [if_pos hdots] at h
      exact absurd rfl h
    · rw [if_neg hdots]
      split
      · exact ⟨above.reverse, name, _, ['.', '.'], hpieces, hidle, hname, hdots, rfl, by decide,
          by decide⟩
      · refine ⟨above.reverse, name, _, stem name ++ ['.', 't', 'm', 'p'], hpieces, hidle, hname,
          hdots, rfl, ?_, by simp⟩
        intro hm
        rcases List.mem_append.mp hm with hm | hm
        · exact hslash (mem_of_mem_stem hm)
        · revert hm
          decide

/-- The walks along a path and along its temporary sibling part at the last name; the path has
nothing but single dots after it. -/
theorem steps_temporary {path : String} (hne : temporary path ≠ path) :
    ∃ above name rest last, steps path = above ++ [name] ++ rest ∧
      steps (temporary path) = above ++ [last] ∧
      isAbsolute (temporary path) = isAbsolute path ∧ (∀ step ∈ rest, step = ".") ∧
      name ≠ "." ∧ name ≠ ".." ∧ (last = name → rest = [] → endsInSlash path = true) := by
  obtain ⟨above, name, rest, last, hpieces, hrest, hname, hdots, htmp, hlast, hlastne⟩ :=
    temporary_eq_join hne
  have hslash : ∀ p ∈ above ++ name :: rest, '/' ∉ p := by
    intro p hm
    rw [← hpieces] at hm
    exact slash_not_mem_of_mem_pieces hm
  have habove : ∀ p ∈ above, '/' ∉ p := fun p hm => hslash p (List.mem_append_left _ hm)
  have hnamene : name ≠ [] := by
    rintro rfl
    simp [isIdle] at hname
  have htpieces : pieces (temporary path) = above ++ [last] := by
    rw [htmp]
    refine pieces_join ?_ (by simp)
    intro p hm
    rcases List.mem_append.mp hm with hm | hm
    · exact habove p hm
    · rw [List.mem_singleton.mp hm]
      exact hlast
  refine ⟨(above.filter (!·.isEmpty)).map String.ofList, String.ofList name,
    (rest.filter (!·.isEmpty)).map String.ofList, String.ofList last, ?_, ?_, ?_, ?_, ?_, ?_, ?_⟩
  · simp [steps, hpieces, hnamene]
  · simp [steps, htpieces, hlastne]
  · have hpath : path = join (above ++ name :: rest) := by rw [← hpieces, join_pieces]
    rw [htmp, isAbsolute_join habove hlast hlastne, hpath,
      isAbsolute_join habove (hslash name (by simp)) hnamene]
  · intro step hm
    obtain ⟨p, hpm, rfl⟩ := List.mem_map.mp hm
    obtain ⟨hpr, hpe⟩ := List.mem_filter.mp hpm
    have hp := hrest p hpr
    simp only [isIdle, Bool.or_eq_true, decide_eq_true_eq] at hp
    rcases hp with hp | hp
    · simp [hp] at hpe
    · rw [hp]
  · intro hdot
    have := congrArg String.toList hdot
    simp [isIdle, show name = ['.'] by simpa using this] at hname
  · intro hd
    have := congrArg String.toList hd
    exact hdots (by simpa using this)
  · intro heq hempty
    have hlastname : last = name := by simpa using congrArg String.toList heq
    rcases List.eq_nil_or_concat rest with hnil | ⟨front, p, hconcat⟩
    · -- then the two are the same path
      refine absurd ?_ hne
      rw [htmp, hlastname, ← join_pieces path, hpieces, hnil]
    · have hp : p = [] := by
        by_contra hpne
        have hm : p ∈ rest.filter (!·.isEmpty) :=
          List.mem_filter.mpr ⟨by simp [hconcat], by simp [hpne]⟩
        rw [List.map_eq_nil_iff] at hempty
        simp [hempty] at hm
      refine endsInSlash_of_pieces (by simp) (?_ : _ = (above ++ name :: front) ++ [[]])
      rw [hpieces, hconcat, hp]
      simp

end Path

theorem Place.eq_of_enter_eq_append {p : Place} {step name : String}
    (h : p.enter step = p ++ [name]) : step = name := by
  have hlen := congrArg List.length h
  unfold Place.enter at h hlen
  split_ifs at h hlen
  · simp at hlen
  · simp at hlen
  · simpa using h

namespace Disk

theorem walk_append (d : Disk) (here : Place) (xs ys : List String) :
    d.walk here (xs ++ ys) = (d.walk here xs).bind fun mid => d.walk mid ys := by
  induction xs generalizing here with
  | nil => rfl
  | cons x xs ih =>
    simp only [List.cons_append, walk]
    split
    · split
      · rfl
      · exact ih (here.enter x)
    · rfl
    · rfl

theorem walk_of_locate {d : Disk} {path : String} {place : Place} (h : d.locate path = .ok place) :
    d.walk (if Path.isAbsolute path then [] else d.working) (Path.steps path) = .ok place := by
  unfold locate at h
  split_ifs at h ⊢
  · exact h
  · exact h

/-- A walk of single dots stays where it is, and if it has a step at all, that is a directory. -/
theorem walk_dots {d : Disk} {here place : Place} {steps : List String}
    (hs : ∀ step ∈ steps, step = ".") (h : d.walk here steps = .ok place) :
    place = here ∧ (steps ≠ [] → d.node? here = some .directory) := by
  induction steps with
  | nil =>
    cases h
    simp
  | cons step steps ih =>
    have hdot : step = "." := hs step List.mem_cons_self
    simp only [walk] at h
    split at h
    · rename_i hdir
      split at h
      · cases h
      · have hstay : here.enter step = here := by simp [Place.enter, hdot]
        rw [hstay] at h
        exact ⟨(ih (fun s hm => hs s (List.mem_cons_of_mem step hm)) h).1, fun _ => hdir⟩
    · cases h
    · cases h

theorem walk_concat {d : Disk} {here place : Place} {steps : List String} {step : String}
    (h : d.walk here (steps ++ [step]) = .ok place) :
    ∃ mid, d.walk here steps = .ok mid ∧ place = mid.enter step := by
  rw [walk_append] at h
  cases hm : d.walk here steps with
  | error fault =>
    rw [hm] at h
    cases h
  | ok mid =>
    rw [hm] at h
    simp only [Except.bind, walk] at h
    split at h
    · split at h
      · cases h
      · cases h
        exact ⟨mid, rfl, rfl⟩
    · cases h
    · cases h

/-- Where a path and its temporary sibling lead to the same place, and it is no directory, the path
has a slash too many to mean a file. -/
theorem endsInSlash_of_temporary {d : Disk} {path : String} {place : Place}
    (hne : Path.temporary path ≠ path) (hp : d.locate path = .ok place)
    (ht : d.locate (Path.temporary path) = .ok place) (hd : d.node? place ≠ some .directory) :
    Path.endsInSlash path = true := by
  obtain ⟨above, name, rest, last, hpsteps, htsteps, hstart, hidle, hdot, hdots, hends⟩ :=
    Path.steps_temporary hne
  have hwt := walk_of_locate ht
  have hwp := walk_of_locate hp
  rw [hstart, htsteps] at hwt
  rw [hpsteps, walk_append] at hwp
  obtain ⟨mid, hmid, hplace⟩ := walk_concat hwt
  cases hfoot : d.walk (if Path.isAbsolute path then [] else d.working) (above ++ [name]) with
  | error fault =>
    rw [hfoot] at hwp
    cases hwp
  | ok foot =>
    rw [hfoot] at hwp
    obtain ⟨mid', hmid', hfooteq⟩ := walk_concat hfoot
    obtain rfl : mid = mid' := by simpa [hmid] using hmid'
    obtain ⟨hsame, hdir⟩ := walk_dots hidle hwp
    have hrest : rest = [] := by
      by_contra hsome
      exact hd (hsame ▸ hdir hsome)
    have henter : mid.enter name = mid ++ [name] := by simp [Place.enter, hdot, hdots]
    have hlast : last = name := by
      apply Place.eq_of_enter_eq_append (p := mid)
      rw [← hplace, hsame, hfooteq, henter]
    exact hends hlast hrest

theorem attempt_eq_ok_iff {d d' : Disk} {change : Disk → Except FileFault Disk} :
    d.attempt change = (.ok (), d') ↔ (∀ fault, d.outages.head? ≠ some (some fault)) ∧
      change { d with outages := d.outages.tail } = .ok d' := by
  unfold attempt
  rcases d.outages with _ | ⟨_ | fault, rest⟩
  · cases hc : change { d with outages := [] } <;> simp [hc]
  · cases hc : change { d with outages := rest } <;> simp [hc]
  · simp

theorem of_attempt_eq_error {d d' : Disk} {change : Disk → Except FileFault Disk}
    {fault : FileFault} (h : d.attempt change = (.error fault, d')) :
    d' = { d with outages := d.outages.tail } := by
  unfold attempt at h
  split at h
  · cases h
    rfl
  · simp only at h
    split at h
    · cases h
    · cases h
      rfl

theorem walk_outages (d : Disk) (outages : List (Option FileFault)) (here : Place)
    (steps : List String) : walk { d with outages } here steps = d.walk here steps := by
  induction steps generalizing here with
  | nil => rfl
  | cons step steps ih =>
    rw [walk, walk, ih]
    rfl

theorem locate_outages (d : Disk) (outages : List (Option FileFault)) (path : String) :
    locate { d with outages } path = d.locate path := by
  rw [locate, locate, walk_outages]

theorem write_eq_ok_iff {d d' : Disk} {path text : String} :
    d.write path text = (.ok (), d') ↔ (∀ fault, d.outages.head? ≠ some (some fault)) ∧
      ∃ place, d.locate path = .ok place ∧ d.node? place ≠ some .directory ∧
        Path.endsInSlash path = false ∧
        d' = { d.put place (.file (.text text)) with outages := d.outages.tail } := by
  have hnode : node? { d with outages := d.outages.tail } = d.node? := rfl
  rw [write, attempt_eq_ok_iff, written, locate_outages]
  refine and_congr_right fun _ => ?_
  cases d.locate path with
  | error fault => simp [bind, Except.bind]
  | ok place =>
    simp only [bind, Except.bind, hnode]
    constructor
    · intro h
      split at h
      · cases h
      · rename_i hfile
        cases h
        exact ⟨place, rfl, fun hdir => hfile (.inl hdir), by simpa using fun hs => hfile (.inr hs),
          rfl⟩
    · rintro ⟨_, hplace, hdir, hslash, rfl⟩
      cases hplace
      rw [if_neg (by simp [hdir, hslash])]
      rfl

theorem rename_eq_ok_iff {d d' : Disk} {source target : String} :
    d.rename source target = (.ok (), d') ↔ (∀ fault, d.outages.head? ≠ some (some fault)) ∧
      (Path.isNameless source = false ∧ Path.isNameless target = false) ∧
      (Path.endsInSlash source = false ∧ Path.endsInSlash target = false) ∧
      ∃ place goal content, d.locate source = .ok place ∧ d.locate target = .ok goal ∧
        d.node? place = some (.file content) ∧ d.node? goal ≠ some .directory ∧
        d' = { (d.clear place).put goal (.file content) with outages := d.outages.tail } := by
  have hnode : node? { d with outages := d.outages.tail } = d.node? := rfl
  rw [rename, attempt_eq_ok_iff, renamed, locate_outages d _ source, locate_outages d _ target]
  refine and_congr_right fun _ => ?_
  cases d.locate source with
  | error fault => simp [bind, Except.bind]
  | ok place =>
    cases d.locate target with
    | error fault => simp [bind, Except.bind]
    | ok goal =>
      simp only [bind, Except.bind, hnode]
      constructor
      · intro h
        split at h
        · cases h
        · rename_i hnamed
          split at h
          · cases h
          · cases h
          · rename_i content hfile
            split_ifs at h with hslash hgoal
            cases h
            exact ⟨by simpa using hnamed, by simpa using hslash, place, goal, content, rfl, rfl,
              hfile, hgoal, rfl⟩
      · rintro ⟨hnamed, hslash, _, _, content, hplace, hgoal, hfile, hdir, rfl⟩
        cases hplace
        cases hgoal
        rw [if_neg (by simp [hnamed]), hfile]
        simp only
        rw [if_neg (by simp [hslash]), if_neg hdir]
        rfl

/-! What a change leaves behind. -/

theorem of_write_eq_ok {d d' : Disk} {path text : String}
    (h : d.write path text = (.ok (), d')) :
    SameDirectories d d' ∧ ∃ place, d.locate path = .ok place ∧ d.node? place ≠ some .directory ∧
      ∀ q, d'.node? q = if q = place then some (.file (.text text)) else d.node? q := by
  obtain ⟨-, place, hplace, hdir, -, rfl⟩ := write_eq_ok_iff.mp h
  exact ⟨(sameDirectories_put hdir _).trans (sameDirectories_outages _ _), place, hplace, hdir,
    node?_put hdir _⟩

theorem of_rename_eq_ok {d d' : Disk} {source target : String}
    (h : d.rename source target = (.ok (), d')) :
    SameDirectories d d' ∧ ∃ place goal content, d.locate source = .ok place ∧
      d.locate target = .ok goal ∧ d.node? place = some (.file content) ∧
      Path.endsInSlash target = false ∧
      ∀ q, d'.node? q = if q = goal then some (.file content)
        else if q = place then none else d.node? q := by
  obtain ⟨-, -, hslash, place, goal, content, hplace, hgoal, hfile, hdir, rfl⟩ :=
    rename_eq_ok_iff.mp h
  have hfiledir : d.node? place ≠ some .directory := by simp [hfile]
  have hclear := sameDirectories_clear hfiledir
  have hdir' := mt (hclear.node goal).mp hdir
  refine ⟨(hclear.trans (sameDirectories_put hdir' _)).trans (sameDirectories_outages _ _), place,
    goal, content, hplace, hgoal, hfile, hslash.2, ?_⟩
  intro q
  rw [← node?_clear hfiledir]
  exact node?_put hdir' _ q

structure Alike (d e : Disk) : Prop extends SameDirectories d e where
  outages : e.outages = d.outages

theorem Alike.refl (d : Disk) : Alike d d := ⟨⟨rfl, fun _ => Iff.rfl⟩, rfl⟩

/-- Whether a text can be written does not depend on the text, nor on the files that are there. -/
theorem write_of_alike {d d' e : Disk} {path text : String} (ha : d.Alike e)
    (h : d.write path text = (.ok (), d')) (other : String) :
    ∃ e', e.write path other = (.ok (), e') ∧ d'.Alike e' := by
  obtain ⟨hdue, place, hplace, hdir, hslash, hd'⟩ := write_eq_ok_iff.mp h
  rw [← ha.outages] at hdue
  have hwrite : e.write path other =
      (.ok (), { e.put place (.file (.text other)) with outages := e.outages.tail }) :=
    write_eq_ok_iff.mpr ⟨hdue, place, locate_of_sameDirectories ha.toSameDirectories hplace,
      mt (ha.node place).mp hdir, hslash, rfl⟩
  refine ⟨_, hwrite, ((of_write_eq_ok h).1.symm.trans ha.toSameDirectories).trans
    (of_write_eq_ok hwrite).1, ?_⟩
  rw [hd']
  exact congrArg List.tail ha.outages

theorem rename_of_alike {d d' e : Disk} {source target : String} {place : Place}
    {content : Content} (ha : d.Alike e) (h : d.rename source target = (.ok (), d'))
    (hplace : e.locate source = .ok place) (hfile : e.node? place = some (.file content)) :
    ∃ e', e.rename source target = (.ok (), e') ∧ d'.Alike e' := by
  obtain ⟨hdue, hnamed, hslash, _, goal, _, -, hgoal, -, hdir, hd'⟩ := rename_eq_ok_iff.mp h
  rw [← ha.outages] at hdue
  have hrename := rename_eq_ok_iff.mpr ⟨hdue, hnamed, hslash, place, goal, content, hplace,
    locate_of_sameDirectories ha.toSameDirectories hgoal, hfile, mt (ha.node goal).mp hdir, rfl⟩
  refine ⟨_, hrename, ((of_rename_eq_ok h).1.symm.trans ha.toSameDirectories).trans
    (of_rename_eq_ok hrename).1, ?_⟩
  rw [hd']
  exact congrArg List.tail ha.outages

/-- The content of the file at a path; nothing where the path does not lead to a file. -/
def content? (d : Disk) (path : String) : Option Content :=
  match d.locate path with
  | .error _ => none
  | .ok place =>
    match d.node? place with
    | some (.file content) => if Path.endsInSlash path then none else some content
    | _ => none

theorem content?_of_node? {d : Disk} {path : String} {place : Place} {content : Content}
    (hl : d.locate path = .ok place) (hs : Path.endsInSlash path = false)
    (hn : d.node? place = some (.file content)) : d.content? path = some content := by
  simp [content?, hl, hn, hs]

theorem read_of_content? {d : Disk} {path text : String} (h : d.content? path = some (.text text)) :
    d.read path = .ok text := by
  unfold content? at h
  split at h
  · cases h
  · rename_i place hl
    split at h
    · rename_i content hn
      split at h
      · cases h
      · rename_i hs
        cases h
        simp [read, hl, hn, hs, bind, Except.bind]
    · cases h

theorem isAbsence_of_read_slash {d : Disk} {path : String} {place : Place}
    (hl : d.locate path = .ok place) (hs : Path.endsInSlash path = true)
    (hd : d.node? place ≠ some .directory) :
    ∃ f, d.read path = .error f ∧ f.isAbsence = true := by
  cases hn : d.node? place with
  | none => exact ⟨.notFound, by simp [read, hl, hn, bind, Except.bind], rfl⟩
  | some node =>
    cases node with
    | directory => exact absurd hn hd
    | file content => exact ⟨.notADirectory, by simp [read, hl, hn, hs, bind, Except.bind], rfl⟩

section SamePlace

variable {d e : Disk} {path : String} (h : SameDirectories d e)
  (hn : ∀ place, d.locate path = .ok place → Path.endsInSlash path = true ∨
    e.node? place = d.node? place)

include h hn

theorem content?_of_sameDirectories : e.content? path = d.content? path := by
  unfold content?
  cases hl : d.locate path with
  | error fault =>
    cases hl' : e.locate path with
    | error fault' => rfl
    | ok place =>
      rw [locate_of_sameDirectories h.symm hl'] at hl
      cases hl
  | ok place =>
    rw [locate_of_sameDirectories h hl]
    rcases hn place hl with hs | heq
    · simp only [hs, if_true]
      split <;> split <;> rfl
    · simp only [heq]

/-- Reading goes as it went before, up to the reason why nothing is there. -/
theorem read_of_sameDirectories :
    e.read path = d.read path ∨ ∃ f g, d.read path = .error f ∧ e.read path = .error g ∧
      f.isAbsence = true ∧ g.isAbsence = true := by
  cases hl : d.locate path with
  | error fault =>
    right
    cases hl' : e.locate path with
    | error fault' =>
      refine ⟨fault, fault', ?_, ?_, isAbsence_of_locate hl, isAbsence_of_locate hl'⟩
      · simp [read, hl, bind, Except.bind]
      · simp [read, hl', bind, Except.bind]
    | ok place =>
      rw [locate_of_sameDirectories h.symm hl'] at hl
      cases hl
  | ok place =>
    have hl' := locate_of_sameDirectories h hl
    rcases hn place hl with hs | heq
    · by_cases hd : d.node? place = some .directory
      · left
        simp [read, hl, hl', hd, (h.node place).mpr hd, bind, Except.bind]
      · obtain ⟨f, hf, hfa⟩ := isAbsence_of_read_slash hl hs hd
        obtain ⟨g, hg, hga⟩ := isAbsence_of_read_slash hl' hs (mt (h.node place).mp hd)
        exact .inr ⟨f, g, hf, hg, hfa, hga⟩
    · left
      simp [read, hl, hl', heq, bind, Except.bind]

end SamePlace

/-- A file can be put at the path by way of its temporary sibling, now and ever after. -/
structure Writable (d : Disk) (path : String) : Prop where
  outages : d.outages = []
  named : Path.isNameless path = false ∧ Path.isNameless (Path.temporary path) = false
  slashless : Path.endsInSlash path = false ∧ Path.endsInSlash (Path.temporary path) = false
  goal : ∃ goal, d.locate path = .ok goal ∧ d.node? goal ≠ some .directory
  sibling : ∃ place, d.locate (Path.temporary path) = .ok place ∧ d.node? place ≠ some .directory

theorem Writable.of_sameDirectories {d e : Disk} {path : String} (h : d.Writable path)
    (hsame : SameDirectories d e) (hout : e.outages = []) : e.Writable path := by
  obtain ⟨goal, hgoal, hgoaldir⟩ := h.goal
  obtain ⟨place, hplace, hplacedir⟩ := h.sibling
  exact ⟨hout, h.named, h.slashless,
    ⟨goal, locate_of_sameDirectories hsame hgoal, mt (hsame.node goal).mp hgoaldir⟩,
    ⟨place, locate_of_sameDirectories hsame hplace, mt (hsame.node place).mp hplacedir⟩⟩

theorem Writable.not_due {d : Disk} {path : String} (h : d.Writable path) (fault : FileFault) :
    d.outages.head? ≠ some (some fault) := by
  simp [h.outages]

theorem write_of_writable {d : Disk} {path : String} (h : d.Writable path) (text : String) :
    ∃ d', d.write (Path.temporary path) text = (.ok (), d') ∧ d'.outages = [] := by
  obtain ⟨place, hplace, hdir⟩ := h.sibling
  refine ⟨_, write_eq_ok_iff.mpr ⟨h.not_due, place, hplace, hdir, h.slashless.2, rfl⟩, ?_⟩
  simp [h.outages]

theorem rename_of_writable {d : Disk} {path : String} (h : d.Writable path) {place : Place}
    {content : Content} (hplace : d.locate (Path.temporary path) = .ok place)
    (hfile : d.node? place = some (.file content)) :
    ∃ d', d.rename (Path.temporary path) path = (.ok (), d') ∧ d'.outages = [] := by
  obtain ⟨goal, hgoal, hdir⟩ := h.goal
  refine ⟨_, rename_eq_ok_iff.mpr ⟨h.not_due, h.named.symm, h.slashless.symm, place, goal, content,
    hplace, hgoal, hfile, hdir, rfl⟩, ?_⟩
  simp [h.outages]

end Disk

theorem writable_fresh : Disk.fresh.Writable "computers.json" :=
  ⟨by decide +kernel, by decide +kernel, by decide +kernel,
    ⟨["tmp", "work", "computers.json"], by decide +kernel, by decide +kernel⟩,
    ⟨["tmp", "work", "computers.tmp"], by decide +kernel, by decide +kernel⟩⟩

end StackComputer
