import Mathlib.Data.List.Nodup
import Mathlib.Data.List.Sort
import StackComputer.Computer
import StackComputer.Proofs.KeyMaps

/-! # Programs as tables of slots

A program is determined by its capacity, its write pointer and what is in its slots; its entries
list the filled ones in ascending order. Placing entries one after the other leaves the last one for
each address, so a computer comes back from its entries in whatever order they are placed.
-/

namespace StackComputer

namespace Program

theorem ext_get? {p q : Program} (hsize : p.slots.size = q.slots.size)
    (hcapacity : p.capacity = q.capacity) (hpointer : p.pointer = q.pointer)
    (h : ∀ address, p.get? address = q.get? address) : p = q := by
  have hslots : p.slots = q.slots := by
    apply Array.ext hsize
    intro a ha hb
    simpa [get?, ha, hb] using h a
  cases p
  cases q
  simp_all

theorem get?_empty (capacity address : Nat) : (empty capacity).get? address = none := by
  simp only [get?, empty, Array.getElem?_replicate]
  split <;> rfl

theorem mem_entries {p : Program} {address : Nat} {i : Instruction} :
    (address, i) ∈ p.entries ↔ p.get? address = some i := by
  simp only [entries, List.mem_filterMap, get?, Option.join_eq_some_iff]
  constructor
  · rintro ⟨⟨slot, a⟩, hmem, hslot⟩
    obtain ⟨j, rfl, he⟩ := Option.map_eq_some_iff.mp hslot
    cases he
    simpa using List.mem_zipIdx_iff_getElem?.mp hmem
  · intro h
    exact ⟨(some i, address), List.mem_zipIdx_iff_getElem?.mpr (by simpa using h), rfl⟩

theorem entries_ascending (p : Program) : p.entries.Pairwise fun e f => e.1 < f.1 := by
  have hidx : p.slots.toList.zipIdx.Pairwise fun s t => s.2 < t.2 := by
    rw [← List.pairwise_map (f := Prod.snd), List.zipIdx_map_snd]
    exact List.pairwise_lt_range'
  refine hidx.filterMap _ fun s t hst e he f hf => ?_
  obtain ⟨i, -, rfl⟩ := Option.map_eq_some_iff.mp he
  obtain ⟨j, -, rfl⟩ := Option.map_eq_some_iff.mp hf
  exact hst

theorem eq_of_ascending {es fs : List (Nat × Instruction)}
    (hes : es.Pairwise fun e f => e.1 < f.1) (hfs : fs.Pairwise fun e f => e.1 < f.1)
    (h : ∀ e, e ∈ es ↔ e ∈ fs) : es = fs := by
  have hirrefl : Std.Irrefl fun e f : Nat × Instruction => e.1 < f.1 :=
    ⟨fun e => Nat.lt_irrefl e.1⟩
  have hantisymm : Std.Antisymm fun e f : Nat × Instruction => e.1 < f.1 :=
    ⟨fun _ _ hef hfe => absurd hef (Nat.lt_asymm hfe)⟩
  exact hes.eq_of_mem_iff hfs h

theorem nodup_of_ascending {es : List (Nat × Instruction)}
    (hes : es.Pairwise fun e f => e.1 < f.1) : (es.map Prod.fst).Nodup := by
  rw [List.nodup_iff_pairwise_ne, List.pairwise_map]
  exact hes.imp fun h => Nat.ne_of_lt h

theorem nodup_addresses (p : Program) : (p.entries.map Prod.fst).Nodup :=
  nodup_of_ascending p.entries_ascending

/-- The entries are the only list in ascending order that has the filled slots in it. -/
theorem entries_eq_of_lookup {p : Program} {es : List (Nat × Instruction)}
    (hes : es.Pairwise fun e f => e.1 < f.1) (h : ∀ a, p.get? a = es.lookup a) :
    p.entries = es := by
  apply eq_of_ascending p.entries_ascending hes
  intro e
  rw [mem_entries, h, lookup_eq_some_iff_mem (nodup_of_ascending hes)]

theorem WellFormed.address_le {p : Program} (hp : p.WellFormed) {address : Nat} {i : Instruction}
    (h : p.get? address = some i) : address ≤ p.capacity := by
  have hlt : address < p.slots.size := by
    by_contra hge
    simp [get?, Array.getElem?_eq_none (Nat.not_lt.mp hge)] at h
  rw [hp.size_slots] at hlt
  omega

theorem WellFormed.get?_eq_none {p : Program} (hp : p.WellFormed) {address : Nat}
    (h : p.capacity < address) : p.get? address = none := by
  by_contra hne
  obtain ⟨i, hi⟩ := Option.ne_none_iff_exists'.mp hne
  have hle := hp.address_le hi
  omega

theorem place_eq_ok {p : Program} {address : Nat} (i : Instruction) (h : address ≤ p.capacity) :
    p.place address i = .ok { p with slots := p.slots.setIfInBounds address (some i) } :=
  if_pos h

theorem setPointer_eq_ok_iff {p q : Program} {address : Nat} :
    p.setPointer address = .ok q ↔ address ≤ p.capacity ∧ q = { p with pointer := address } := by
  by_cases h : address ≤ p.capacity <;> simp [setPointer, h, eq_comm]

theorem insert_eq_ok_iff {p q : Program} {i : Instruction} :
    p.insert i = .ok q ↔ p.pointer ≤ p.capacity ∧ q = { p with
      slots := p.slots.setIfInBounds p.pointer (some i), pointer := p.pointer + 1 } := by
  by_cases h : p.pointer ≤ p.capacity <;> simp [insert, place, h, Except.map, eq_comm]

theorem get?_set {p : Program} (hsize : p.slots.size = p.capacity + 1) {address : Nat}
    (i : Instruction) (h : address ≤ p.capacity) (a : Nat) :
    get? { p with slots := p.slots.setIfInBounds address (some i) } a =
      if a = address then some i else p.get? a := by
  by_cases ha : a = address
  · subst a
    simp [get?, show address < p.slots.size by omega]
  · simp [get?, ha, Array.getElem?_setIfInBounds_ne (Ne.symm ha)]

theorem get?_of_insert {p q : Program} (hsize : p.slots.size = p.capacity + 1) {i : Instruction}
    (h : p.insert i = .ok q) (a : Nat) :
    q.get? a = if a = p.pointer then some i else p.get? a := by
  obtain ⟨hle, rfl⟩ := insert_eq_ok_iff.mp h
  exact get?_set hsize i hle a

end Program

/-- Placing entries at addresses in range succeeds, changes slots only, and of several entries for
an address the last one stands. -/
theorem Computer.placeAll_spec {es : List (Nat × Instruction)} {p : Program}
    (hsize : p.slots.size = p.capacity + 1) (h : ∀ e ∈ es, e.1 ≤ p.capacity) :
    ∃ q, placeAll es p = .ok q ∧ q.slots.size = p.slots.size ∧ q.capacity = p.capacity ∧
      q.pointer = p.pointer ∧ ∀ a, q.get? a = (es.reverse.lookup a).or (p.get? a) := by
  induction es generalizing p with
  | nil => exact ⟨p, rfl, rfl, rfl, rfl, by simp⟩
  | cons e es ih =>
    obtain ⟨address, i⟩ := e
    have haddress : address ≤ p.capacity := h _ List.mem_cons_self
    have hrest : ∀ e ∈ es, e.1 ≤ p.capacity := fun e he => h e (List.mem_cons_of_mem _ he)
    obtain ⟨q, hq, hqs, hqc, hqp, hget⟩ :=
      ih (p := { p with slots := p.slots.setIfInBounds address (some i) }) (by simpa using hsize)
        hrest
    refine ⟨q, ?_, by simpa using hqs, hqc, hqp, fun a => ?_⟩
    · simp only [placeAll, Program.place_eq_ok i haddress]
      exact hq
    · rw [hget, Program.get?_set hsize i haddress, List.reverse_cons, List.lookup_append,
        lookup_cons_eq_if, Option.or_assoc]
      by_cases ha : a = address <;> simp [ha]

namespace Computer

theorem ofParts_spec {capacity pointer : Nat} (registers : Registers)
    {es : List (Nat × Instruction)} (hes : ∀ e ∈ es, e.1 ≤ capacity)
    (hpointer : pointer ≤ capacity + 1) :
    ∃ c, ofParts capacity registers pointer es = .ok c ∧ c.program.WellFormed ∧
      c.program.capacity = capacity ∧ c.program.pointer = pointer ∧ c.registers = registers ∧
      c.policy = .lenient ∧ ∀ a, c.program.get? a = es.reverse.lookup a := by
  obtain ⟨q, hq, hqs, hqc, -, hget⟩ :=
    placeAll_spec (p := .empty capacity) (Program.wellFormed_empty capacity).size_slots hes
  have hqs' : q.slots.size = capacity + 1 :=
    hqs.trans (Program.wellFormed_empty capacity).size_slots
  have hqc' : q.capacity = capacity := hqc
  have hr : q.restorePointer pointer = .ok { q with pointer } := by
    rw [Program.restorePointer, if_pos (by omega)]
  have hwf : Program.WellFormed { q with pointer } :=
    ⟨by simpa [hqc'] using hqs', by simpa [hqc'] using hpointer⟩
  refine ⟨{ program := { q with pointer }, registers }, ?_, hwf, hqc', rfl, rfl, rfl, fun a => ?_⟩
  · simp only [ofParts, hq, bind, Except.bind, hr]
    rfl
  · change q.get? a = _
    rw [hget, Program.get?_empty, Option.or_none]

theorem setPolicy_of_policy_eq {c : Computer} {policy : Policy} (h : c.policy = policy) :
    c.setPolicy policy = c := by
  rw [setPolicy, ← h]

/-- A computer is its parts, in whatever order its entries are placed. -/
theorem ofParts_perm_entries {c : Computer} (hc : c.program.WellFormed)
    {es : List (Nat × Instruction)} (hes : es.Perm c.program.entries) :
    ofParts c.program.capacity c.registers c.program.pointer es =
      .ok (c.setPolicy .lenient) := by
  have hmem : ∀ e, e ∈ es ↔ c.program.get? e.1 = some e.2 := fun e => by
    rw [hes.mem_iff, Program.mem_entries]
  obtain ⟨d, hd, hwf, hcap, hptr, hreg, hpol, hget⟩ := ofParts_spec c.registers
    (fun e he => hc.address_le ((hmem e).mp he)) hc.pointer_le
  have hn : (es.reverse.map Prod.fst).Nodup := by
    rw [List.map_reverse]
    exact List.nodup_reverse.mpr ((hes.map Prod.fst).nodup_iff.mpr c.program.nodup_addresses)
  have hprogram : d.program = c.program := by
    refine Program.ext_get? ?_ hcap hptr fun a => ?_
    · rw [hwf.size_slots, hc.size_slots, hcap]
    · apply Option.ext
      intro i
      rw [hget, lookup_eq_some_iff_mem hn, List.mem_reverse, hmem]
  rw [hd]
  cases d
  simp_all [setPolicy]

end Computer

end StackComputer
