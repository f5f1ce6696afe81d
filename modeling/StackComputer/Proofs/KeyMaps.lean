import Mathlib.Data.List.Nodup
import StackComputer.KeyMap

/-! Look-ups in key maps. A map is determined by its look-ups, insertion and erasure touch one key
only, and of several bindings for a key the last one stands. -/

namespace StackComputer

section Lookup

variable {κ α : Type} [BEq κ] [LawfulBEq κ] [DecidableEq κ]

theorem lookup_cons_eq_if (key : κ) (e : κ × α) (es : List (κ × α)) :
    (e :: es).lookup key = if key = e.1 then some e.2 else es.lookup key := by
  by_cases hk : key = e.1
  · rw [if_pos hk, List.lookup_cons, beq_iff_eq.mpr hk]
  · rw [if_neg hk, List.lookup_cons, beq_eq_false_iff_ne.mpr hk]

theorem lookup_filter_ne (key k : κ) (es : List (κ × α)) :
    (es.filter fun e => e.1 != k).lookup key = if key = k then none else es.lookup key := by
  induction es with
  | nil => simp
  | cons e es ih =>
    rw [lookup_cons_eq_if]
    by_cases he : e.1 = k
    · have hkeep : (e.1 != k) = false := by simpa using he
      rw [List.filter_cons, if_neg (by simp [hkeep]), ih]
      by_cases hk : key = k
      · rw [if_pos hk, if_pos hk]
      · rw [if_neg hk, if_neg hk, if_neg (he ▸ hk)]
    · have hkeep : (e.1 != k) = true := by simpa using he
      rw [List.filter_cons, if_pos hkeep, lookup_cons_eq_if, ih]
      by_cases hk : key = e.1
      · rw [if_pos hk, if_neg (hk ▸ he), if_pos hk]
      · rw [if_neg hk, if_neg hk]

/-- Where no key comes twice, each entry is what looking up its key finds. -/
theorem lookup_eq_some_iff_mem {key : κ} {value : α} {es : List (κ × α)}
    (hn : (es.map Prod.fst).Nodup) : es.lookup key = some value ↔ (key, value) ∈ es := by
  induction es with
  | nil => simp
  | cons e es ih =>
    obtain ⟨k, v⟩ := e
    rw [List.map_cons, List.nodup_cons] at hn
    rw [lookup_cons_eq_if, List.mem_cons]
    by_cases hk : key = k
    · subst k
      have hes : (key, value) ∉ es := fun h => hn.1 (List.mem_map.mpr ⟨_, h, rfl⟩)
      simp [hes, eq_comm]
    · simp [hk, ih hn.2]

omit [DecidableEq κ] in
/-- Of several entries for a key the last one is found from behind. -/
theorem lookup_reverse_eq_some_iff {key : κ} {value : α} {es : List (κ × α)} :
    es.reverse.lookup key = some value ↔
      ∃ before after, es = before ++ (key, value) :: after ∧ ∀ e ∈ after, e.1 ≠ key := by
  rw [List.lookup_eq_some_iff]
  constructor
  · rintro ⟨after, before, hes, hafter⟩
    refine ⟨before.reverse, after.reverse, ?_, ?_⟩
    · rw [← List.reverse_reverse es, hes]
      simp
    · intro e he
      exact Ne.symm (bne_iff_ne.mp (hafter e (List.mem_reverse.mp he)))
  · rintro ⟨before, after, rfl, hafter⟩
    refine ⟨after.reverse, before.reverse, by simp, ?_⟩
    intro e he
    exact bne_iff_ne.mpr (Ne.symm (hafter e (List.mem_reverse.mp he)))

end Lookup

namespace KeyMap

variable {α : Type}

theorem lookup_insertEntry (key : String) (value : α) (es : List (String × α)) (k : String) :
    (insertEntry key value es).lookup k = if k = key then some value else es.lookup k := by
  induction es with
  | nil => simp [insertEntry, lookup_cons_eq_if]
  | cons e es ih =>
    obtain ⟨k', v⟩ := e
    rw [insertEntry]
    split
    · rw [lookup_cons_eq_if]
    · split
      · rename_i heq
        subst heq
        simp only [lookup_cons_eq_if]
        split <;> rfl
      · rename_i hne
        simp only [lookup_cons_eq_if, ih]
        by_cases hk : k = k'
        · subst k
          simp [Ne.symm hne]
        · simp [hk]

@[simp] theorem get?_empty (key : String) : (empty : KeyMap α).get? key = none := rfl

theorem get?_insert (m : KeyMap α) (key : String) (value : α) (k : String) :
    (m.insert key value).get? k = if k = key then some value else m.get? k :=
  lookup_insertEntry key value m.entries k

theorem get?_erase (m : KeyMap α) (key k : String) :
    (m.erase key).get? k = if k = key then none else m.get? k :=
  lookup_filter_ne k key m.entries

theorem nodup_keys (m : KeyMap α) : (m.entries.map Prod.fst).Nodup := by
  rw [List.nodup_iff_pairwise_ne, List.pairwise_map]
  exact m.ascending.imp fun h => String.ne_of_lt h

theorem get?_eq_some_iff {m : KeyMap α} {key : String} {value : α} :
    m.get? key = some value ↔ (key, value) ∈ m.entries :=
  lookup_eq_some_iff_mem m.nodup_keys

theorem mem_keys_iff {m : KeyMap α} {key : String} :
    key ∈ m.keys ↔ ∃ value, m.get? key = some value := by
  simp only [keys, List.mem_map, get?_eq_some_iff]
  constructor
  · rintro ⟨⟨k, value⟩, hmem, rfl⟩
    exact ⟨value, hmem⟩
  · rintro ⟨value, hmem⟩
    exact ⟨(key, value), hmem, rfl⟩

theorem mem_keys_insert {m : KeyMap α} {key : String} {value : α} {k : String} :
    k ∈ (m.insert key value).keys ↔ k = key ∨ k ∈ m.keys := by
  simp only [mem_keys_iff, get?_insert]
  by_cases hk : k = key <;> simp [hk]

theorem mem_keys_erase {m : KeyMap α} {key k : String} :
    k ∈ (m.erase key).keys ↔ k ≠ key ∧ k ∈ m.keys := by
  simp only [mem_keys_iff, get?_erase]
  by_cases hk : k = key <;> simp [hk]

theorem keys_ascending (m : KeyMap α) : m.keys.Pairwise (· < ·) :=
  List.pairwise_map.mpr m.ascending

theorem ext_entries {m n : KeyMap α} (h : ∀ e, e ∈ m.entries ↔ e ∈ n.entries) : m = n := by
  have hm : m.entries.Nodup := m.nodup_keys.of_map
  have hn : n.entries.Nodup := n.nodup_keys.of_map
  have hp : m.entries.Perm n.entries := (List.perm_ext_iff_of_nodup hm hn).mpr h
  have he : m.entries = n.entries :=
    hp.eq_of_pairwise (fun a b _ _ hab hba => absurd hab (String.lt_asymm hba)) m.ascending
      n.ascending
  cases m
  cases n
  cases he
  rfl

theorem ext_get? {m n : KeyMap α} (h : ∀ key, m.get? key = n.get? key) : m = n := by
  apply ext_entries
  intro e
  rw [← get?_eq_some_iff, ← get?_eq_some_iff, h]

theorem foldl_insert_get? (es : List (String × α)) (m : KeyMap α) (key : String) :
    (es.foldl (fun m e => m.insert e.1 e.2) m).get? key =
      (es.reverse.lookup key).or (m.get? key) := by
  induction es generalizing m with
  | nil => simp
  | cons e es ih =>
    rw [List.foldl_cons, ih, get?_insert, List.reverse_cons, List.lookup_append]
    rw [lookup_cons_eq_if, Option.or_assoc]
    by_cases hk : key = e.1 <;> simp [hk]

theorem get?_ofList (es : List (String × α)) (key : String) :
    (ofList es).get? key = es.reverse.lookup key := by
  rw [ofList, foldl_insert_get?]
  simp

theorem mem_of_mem_entries_ofList {es : List (String × α)} {e : String × α}
    (h : e ∈ (ofList es).entries) : e ∈ es := by
  obtain ⟨key, value⟩ := e
  rw [← get?_eq_some_iff, get?_ofList, List.lookup_eq_some_iff] at h
  obtain ⟨l₁, l₂, hl, -⟩ := h
  rw [← List.mem_reverse, hl]
  simp

theorem mem_entries_ofList {es : List (String × α)} (hn : (es.map Prod.fst).Nodup)
    (e : String × α) : e ∈ (ofList es).entries ↔ e ∈ es := by
  have hr : (es.reverse.map Prod.fst).Nodup := by
    rw [List.map_reverse]
    exact List.nodup_reverse.mpr hn
  obtain ⟨key, value⟩ := e
  rw [← get?_eq_some_iff, get?_ofList, lookup_eq_some_iff_mem hr, List.mem_reverse]

theorem ofList_entries (m : KeyMap α) : ofList m.entries = m :=
  ext_entries (mem_entries_ofList m.nodup_keys)

/-- Entries that are made of those of a map come in the order of the keys, so the last one for an
address comes from the greatest key. -/
theorem lookup_reverse_filterMap {κ β : Type} [BEq κ] [LawfulBEq κ] (m : KeyMap α)
    (f : String × α → Option (κ × β)) (a : κ) (b : β) :
    (m.entries.filterMap f).reverse.lookup a = some b ↔
      ∃ e ∈ m.entries, f e = some (a, b) ∧
        ∀ e' ∈ m.entries, ∀ b', f e' = some (a, b') → e'.1 ≤ e.1 := by
  rw [lookup_reverse_eq_some_iff]
  constructor
  · rintro ⟨before, after, hentries, hafter⟩
    obtain ⟨front, back, hm, -, hback⟩ := List.filterMap_eq_append_iff.mp hentries
    obtain ⟨skipped, e, rest, rfl, -, he, rfl⟩ := List.filterMap_eq_cons_iff.mp hback
    rw [← List.append_assoc] at hm
    have hascending := hm ▸ m.ascending
    refine ⟨e, by simp [hm], he, ?_⟩
    intro e' hmem b' he'
    rw [hm, List.mem_append, List.mem_cons] at hmem
    rcases hmem with hmem | rfl | hmem
    · exact Std.le_of_lt ((List.pairwise_append.mp hascending).2.2 e' hmem e List.mem_cons_self)
    · exact String.le_refl _
    · exact absurd rfl (hafter (a, b') (List.mem_filterMap.mpr ⟨e', hmem, he'⟩))
  · rintro ⟨e, hmem, he, hgreatest⟩
    obtain ⟨front, back, hm⟩ := List.append_of_mem hmem
    have hascending := hm ▸ m.ascending
    refine ⟨front.filterMap f, back.filterMap f, ?_, ?_⟩
    · rw [hm, List.filterMap_append, List.filterMap_cons_some he]
    · rintro ⟨a', b'⟩ hback rfl
      obtain ⟨e', hmem', he'⟩ := List.mem_filterMap.mp hback
      have hle : e'.1 ≤ e.1 := hgreatest e' (by simp [hm, hmem']) b' he'
      have hlt : e.1 < e'.1 :=
        (List.pairwise_cons.mp (List.pairwise_append.mp hascending).2.1).1 e' hmem'
      exact hle hlt

end KeyMap

end StackComputer
