import Mathlib.Data.List.Perm.Basic
import StackComputer.Record
import StackComputer.Proofs.Numerals
import StackComputer.Proofs.Slots

/-! # Computers from their records and from their parts

Building operations edit the program and nothing else; a run puts the registers back. So however a
computer has come about, it has one slot per address, a write pointer at most one past the last and
the return register that it was given. If that is zero, the computer comes back from its record, all
but the policy.

A lenient computer is its capacity, its registers, its write pointer and its entries, whatever order
these are listed in; where a list has several entries for an address, its order matters, and the
last of them stands.
-/

namespace StackComputer

/-- Leniency decides about the result only: what cannot be inserted changes nothing either way. -/
theorem Computer.insert_state (c : Computer) (name : String) (operand : Option Word) :
    (c.insert name operand).state = (c.tryInsert name operand).state := by
  simp only [insert]
  split <;> rfl

structure Edits (c d : Computer) : Prop where
  registers : d.registers = c.registers
  policy : d.policy = c.policy
  capacity : d.program.capacity = c.program.capacity
  wellFormed : c.program.WellFormed → d.program.WellFormed

namespace Edits

variable {c d e : Computer}

theorem refl (c : Computer) : Edits c c := ⟨rfl, rfl, rfl, id⟩

theorem trans (h : Edits c d) (k : Edits d e) : Edits c e :=
  ⟨k.registers.trans h.registers, k.policy.trans h.policy, k.capacity.trans h.capacity,
    k.wellFormed ∘ h.wellFormed⟩

theorem setAddress (c : Computer) (address : Nat) : Edits c (c.setAddress address).state := by
  unfold Computer.setAddress
  split
  · rename_i p hp
    refine ⟨rfl, rfl, ?_, fun h => h.of_setPointer hp⟩
    unfold Program.setPointer at hp
    split at hp <;> cases hp
    rfl
  · exact refl c

theorem insertInstruction (c : Computer) (i : Instruction) :
    Edits c (c.insertInstruction i).state := by
  unfold Computer.insertInstruction
  split
  · rename_i p hp
    refine ⟨rfl, rfl, ?_, fun h => h.of_insert hp⟩
    unfold Program.insert Program.place at hp
    split at hp <;> cases hp
    rfl
  · exact refl c

theorem tryInsert (c : Computer) (name : String) (operand : Option Word) :
    Edits c (c.tryInsert name operand).state := by
  unfold Computer.tryInsert
  split
  · exact insertInstruction c _
  · exact refl c

theorem insert (c : Computer) (name : String) (operand : Option Word) :
    Edits c (c.insert name operand).state := by
  rw [Computer.insert_state]
  exact tryInsert c name operand

theorem insertWithPolicy (c : Computer) (name : String) (operand : Option Word) :
    Edits c (c.insertWithPolicy name operand).state := by
  unfold Computer.insertWithPolicy
  split
  · exact insert c name operand
  · exact tryInsert c name operand

theorem loadLine (c : Computer) (number : Nat) (raw : List Char) :
    Edits c (Listing.loadLine c number raw).state := by
  unfold Listing.loadLine
  split
  · exact refl c
  · rename_i line _
    cases line with
    | empty => exact refl c
    | directive address => exact setAddress c address
    | instruction i => exact insertInstruction c i

theorem loadLines (c : Computer) (number : Nat) (raws : List (List Char)) :
    Edits c (Listing.loadLines c number raws).state := by
  induction raws generalizing c number with
  | nil => exact setAddress c 0
  | cons raw raws ih =>
    have h := loadLine c number raw
    unfold Listing.loadLines Outcome.andThen
    split
    · exact h
    · exact h.trans (ih _ _)

theorem loadInto (c : Computer) (source : String) : Edits c (Listing.loadInto c source).state :=
  loadLines c 1 _

end Edits

inductive BuildCall where
  | setAddress (address : Nat)
  | insert (name : String) (operand : Option Word)
  | tryInsert (name : String) (operand : Option Word)
  | insertWithPolicy (name : String) (operand : Option Word)
  | insertInstruction (i : Instruction)
  | loadInto (source : String)
  deriving DecidableEq, Repr

namespace BuildCall

def perform (c : Computer) : BuildCall → Outcome Computer Fault Unit
  | setAddress address => c.setAddress address
  | insert name operand => c.insert name operand
  | tryInsert name operand => c.tryInsert name operand
  | insertWithPolicy name operand => c.insertWithPolicy name operand
  | insertInstruction i => c.insertInstruction i
  | loadInto source => Listing.loadInto c source

theorem edits_perform (call : BuildCall) (c : Computer) : Edits c (call.perform c).state := by
  cases call with
  | setAddress address => exact .setAddress c address
  | insert name operand => exact .insert c name operand
  | tryInsert name operand => exact .tryInsert c name operand
  | insertWithPolicy name operand => exact .insertWithPolicy c name operand
  | insertInstruction i => exact .insertInstruction c i
  | loadInto source => exact .loadInto c source

end BuildCall

theorem Computer.state_of_execute {c : Computer} {fuel : Nat}
    {o : Outcome Computer Fault (List Word)} (h : c.execute fuel = some o) : o.state = c := by
  simp only [execute] at h
  split at h <;> cases h <;> rfl

structure Computer.Settled (c : Computer) : Prop where
  wellFormed : c.program.WellFormed
  returnRegister : c.registers.returnRegister = 0

namespace Computer

theorem Settled.of_edits {c d : Computer} (hc : c.Settled) (h : Edits c d) : d.Settled :=
  ⟨h.wellFormed hc.wellFormed, h.registers ▸ hc.returnRegister⟩

theorem settled_empty (capacity : Nat) : (empty capacity).Settled :=
  ⟨Program.wellFormed_empty capacity, rfl⟩

theorem wellFormed_of_placeAll {es : List (Nat × Instruction)} {p q : Program}
    (hp : p.WellFormed) (h : placeAll es p = .ok q) :
    q.WellFormed ∧ q.capacity = p.capacity := by
  induction es generalizing p with
  | nil => cases h; exact ⟨hp, rfl⟩
  | cons e es ih =>
    obtain ⟨address, i⟩ := e
    cases hplace : p.place address i with
    | error fault => simp [placeAll, hplace, Except.bind] at h
    | ok r =>
      simp only [placeAll, hplace, Except.bind] at h
      obtain ⟨hq, hcap⟩ := ih (hp.of_place hplace) h
      refine ⟨hq, hcap.trans ?_⟩
      unfold Program.place at hplace
      split at hplace <;> cases hplace
      rfl

theorem ofParts_inv {capacity pointer : Nat} {registers : Registers}
    {es : List (Nat × Instruction)} {c : Computer}
    (h : ofParts capacity registers pointer es = .ok c) :
    c.program.WellFormed ∧ c.program.capacity = capacity ∧ c.registers = registers ∧
      c.policy = .lenient := by
  simp only [ofParts, bind, Except.bind] at h
  split at h
  · cases h
  · rename_i p hp
    split at h
    · cases h
    · rename_i q hq
      cases h
      obtain ⟨hwf, hcap⟩ := wellFormed_of_placeAll (Program.wellFormed_empty capacity) hp
      refine ⟨hwf.of_restorePointer hq, ?_, rfl, rfl⟩
      unfold Program.restorePointer at hq
      split at hq <;> cases hq
      exact hcap

end Computer

theorem OpCode.ofName?_mnemonic (op : OpCode) : ofName? op.mnemonic = some op := by
  cases op <;> decide

theorem Instruction.ofParts_opcode_operand (i : Instruction) :
    ofParts i.opcode i.operand = .ok i := by
  cases i <;> rfl

theorem SlotRecord.slot_stands_for_entry {address : Nat} (h : address < addressLimit)
    (i : Instruction) :
    SlotRecord.entry? address.repr (.ofInstruction i) = .ok (some (address, i)) := by
  have hop := OpCode.ofName?_mnemonic i.opcode
  have hparts := Instruction.ofParts_opcode_operand i
  simp only [ofInstruction, entry?, Text.trim_repr, Text.natural?_repr h, hop]
  cases ho : i.operand with
  | none =>
    rw [ho] at hparts
    simp only [Option.map_none, pure_bind, hparts]
    rfl
  | some w =>
    rw [ho] at hparts
    have hvalue : some <$> (StoredOperand.number w).value = pure (some w) := rfl
    simp only [Option.map_some, hvalue, pure_bind, hparts]
    rfl

theorem readSlots_entries {es : List (Nat × Instruction)} (h : ∀ e ∈ es, e.1 < addressLimit) :
    readSlots (es.map fun e => (e.1.repr, .ofInstruction e.2)) = .ok es := by
  induction es with
  | nil => rfl
  | cons e es ih =>
    have hhead := SlotRecord.slot_stands_for_entry (h e List.mem_cons_self) e.2
    have htail := ih fun e' he' => h e' (List.mem_cons_of_mem e he')
    simp only [List.map_cons, readSlots, hhead, htail]
    rfl

/-- The map of a record lists the entries by the text of their addresses, so not in the order of the
addresses, but it lists each of them once. -/
theorem exists_perm_slots (id : String) (c : Computer) :
    ∃ es : List (Nat × Instruction), es.Perm c.program.entries ∧
      (Record.ofComputer id c).program.slots.entries =
        es.map fun e => (e.1.repr, .ofInstruction e.2) := by
  let slot : Nat × Instruction → String × SlotRecord := fun e => (e.1.repr, .ofInstruction e.2)
  have hkeys : ((c.program.entries.map slot).map Prod.fst).Nodup := by
    have hn := c.program.nodup_addresses.map (f := Nat.repr) fun _ _ => Text.eq_of_repr_eq
    simpa [slot, Function.comp_def] using hn
  have hslots : (KeyMap.ofList (c.program.entries.map slot)).entries.Perm
      (c.program.entries.map slot) :=
    (List.perm_ext_iff_of_nodup (KeyMap.nodup_keys _).of_map hkeys.of_map).mpr
      (KeyMap.mem_entries_ofList hkeys)
  have hcomp : Relation.Comp (· = List.map slot ·) List.Perm
      (KeyMap.ofList (c.program.entries.map slot)).entries c.program.entries := by
    rw [List.eq_map_comp_perm]
    exact hslots
  obtain ⟨es, hes, hperm⟩ := hcomp
  exact ⟨es, hperm, hes⟩

theorem Record.toComputer_eq_ok_iff {r : Record} {c : Computer} :
    r.toComputer = .ok c ↔ r.program.capacity ≤ maxCapacity ∧
      ∃ entries, readSlots r.program.slots.entries = .ok entries ∧
        Computer.ofParts r.program.capacity { programCounter := r.programCounter }
          r.program.pointer entries = .ok c := by
  unfold toComputer
  split
  · rename_i hover
    exact ⟨nofun, fun h => absurd h.1 (Nat.not_le.mpr hover)⟩
  · rename_i hcap
    cases hread : readSlots r.program.slots.entries with
    | error fault => exact ⟨nofun, nofun⟩
    | ok entries =>
      have hparts : ∀ x : Except Fault Computer,
          x.mapError StoreFault.machine = .ok c ↔ x = .ok c := by
        rintro (fault | d)
        · exact ⟨nofun, nofun⟩
        · constructor
          · intro h
            cases h
            rfl
          · intro h
            cases h
            rfl
      simp only [bind, Except.bind, hparts]
      constructor
      · intro h
        exact ⟨Nat.not_lt.mp hcap, entries, rfl, h⟩
      · rintro ⟨-, _, ⟨⟩, h⟩
        exact h

theorem StoredOperand.value_ne_file (operand : StoredOperand) (f : FileFault) :
    operand.value ≠ .error (.file f) := by
  cases operand with
  | number value => exact nofun
  | text s =>
    rw [value]
    split <;> exact nofun

theorem SlotRecord.entry?_ne_file (key : String) (slot : SlotRecord) (f : FileFault) :
    slot.entry? key ≠ .error (.file f) := by
  intro h
  unfold entry? at h
  split at h
  · cases h
  · split at h
    · cases h
    · split at h
      · cases h
      · cases ho : slot.operand with
        | none =>
          simp only [ho, pure_bind] at h
          split at h <;> cases h
        | some operand =>
          cases hvalue : operand.value with
          | error fault =>
            simp only [ho, hvalue] at h
            cases h
            exact operand.value_ne_file f hvalue
          | ok w =>
            have hsome : (some <$> operand.value) = pure (some w) := by rw [hvalue]; rfl
            simp only [ho, hsome, pure_bind] at h
            split at h <;> cases h

theorem readSlots_ne_file (slots : List (String × SlotRecord)) (f : FileFault) :
    readSlots slots ≠ .error (.file f) := by
  induction slots with
  | nil => exact nofun
  | cons e rest ih =>
    obtain ⟨key, slot⟩ := e
    rw [readSlots]
    cases hentry : slot.entry? key with
    | error fault =>
      rintro ⟨⟩
      exact slot.entry?_ne_file key f hentry
    | ok entry =>
      cases hrest : readSlots rest with
      | error fault =>
        rintro ⟨⟩
        exact ih hrest
      | ok entries => exact nofun

/-- Whether a record denotes a computer has nothing to do with files. -/
theorem Record.toComputer_ne_file (r : Record) (f : FileFault) :
    r.toComputer ≠ .error (.file f) := by
  rw [toComputer]
  split
  · exact nofun
  · cases hread : readSlots r.program.slots.entries with
    | error fault =>
      rintro ⟨⟩
      exact readSlots_ne_file _ f hread
    | ok entries =>
      simp only [bind, Except.bind]
      cases Computer.ofParts r.program.capacity { programCounter := r.programCounter }
          r.program.pointer entries with
      | error fault => exact nofun
      | ok c => exact nofun

theorem Record.toComputer_inv {r : Record} {c : Computer} (h : r.toComputer = .ok c) :
    c.Settled ∧ c.program.capacity ≤ maxCapacity ∧
      c.registers.programCounter = r.programCounter ∧ c.policy = .lenient := by
  obtain ⟨hcap, entries, -, hparts⟩ := toComputer_eq_ok_iff.mp h
  obtain ⟨hwf, hcapacity, hregs, hpol⟩ := Computer.ofParts_inv hparts
  refine ⟨⟨hwf, by rw [hregs]⟩, ?_, by rw [hregs], hpol⟩
  rw [hcapacity]
  exact hcap

theorem Record.toComputer_ofComputer {c : Computer} (hc : c.Settled)
    (hcap : c.program.capacity ≤ maxCapacity) (id : String) :
    (ofComputer id c).toComputer = .ok (c.setPolicy .lenient) := by
  obtain ⟨es, hperm, hslots⟩ := exists_perm_slots id c
  have hrange : ∀ e ∈ es, e.1 < addressLimit := by
    intro e he
    have hle := hc.wellFormed.address_le (Program.mem_entries.mp (hperm.mem_iff.mp he))
    unfold addressLimit maxCapacity at *
    omega
  have hregisters :
      ({ programCounter := c.registers.programCounter } : Registers) = c.registers := by
    rw [← hc.returnRegister]
  have hover : ¬ maxCapacity < (ofComputer id c).program.capacity := Nat.not_lt.mpr hcap
  rw [toComputer, if_neg hover, hslots, readSlots_entries hrange]
  change (Computer.ofParts c.program.capacity { programCounter := c.registers.programCounter }
    c.program.pointer es).mapError StoreFault.machine = _
  rw [hregisters, Computer.ofParts_perm_entries hc.wellFormed hperm]
  rfl

namespace Computer

/-- The computers that can be had: empty ones, those from a listing, from a record or from parts
with registers as given, and what building and running leaves of them. -/
inductive Reachable (given : Registers → Prop) : Computer → Prop where
  | empty (capacity : Nat) : Reachable given (.empty capacity)
  | ofConfig (config : Config) : Reachable given (.ofConfig config)
  | load {source : String} {capacity : Nat} :
      (Listing.load source capacity).result = .ok () →
      Reachable given (Listing.load source capacity).state
  | ofParts {capacity pointer : Nat} {registers : Registers} {entries : List (Nat × Instruction)}
      {c : Computer} : given registers →
      Computer.ofParts capacity registers pointer entries = .ok c → Reachable given c
  | toComputer {r : Record} {c : Computer} : r.toComputer = .ok c → Reachable given c
  | build {c : Computer} (call : BuildCall) :
      Reachable given c → Reachable given (call.perform c).state
  | setPolicy {c : Computer} (policy : Policy) :
      Reachable given c → Reachable given (c.setPolicy policy)
  | execute {c : Computer} {fuel : Nat} {o : Outcome Computer Fault (List Word)} :
      Reachable given c → c.execute fuel = some o → Reachable given o.state

variable {given : Registers → Prop} {c : Computer}

theorem Reachable.wellFormed (h : c.Reachable given) : c.program.WellFormed := by
  induction h with
  | empty capacity => exact Program.wellFormed_empty capacity
  | ofConfig config => exact Program.wellFormed_empty config.capacity
  | load _ => exact (Edits.loadInto _ _).wellFormed (Program.wellFormed_empty _)
  | ofParts _ hparts => exact (ofParts_inv hparts).1
  | toComputer hr => exact (Record.toComputer_inv hr).1.wellFormed
  | build call _ ih => exact (call.edits_perform _).wellFormed ih
  | setPolicy policy _ ih => exact ih
  | execute _ ho ih =>
    rw [state_of_execute ho]
    exact ih

/-- Building keeps the registers and a run puts them back, so they are those of the beginning. -/
theorem Reachable.registers (h : c.Reachable given) :
    c.registers.returnRegister = 0 ∨ given c.registers := by
  induction h with
  | empty capacity => exact .inl rfl
  | ofConfig config => exact .inl rfl
  | @load source capacity _ =>
    have hload := (Edits.loadInto (.empty capacity) source).registers
    exact .inl (congrArg Registers.returnRegister hload)
  | ofParts hgiven hparts =>
    obtain ⟨-, -, hregisters, -⟩ := ofParts_inv hparts
    rw [hregisters]
    exact .inr hgiven
  | toComputer hr =>
    -- no record has a return register
    exact .inl (Record.toComputer_inv hr).1.returnRegister
  | build call _ ih =>
    rw [(call.edits_perform _).registers]
    exact ih
  | setPolicy policy _ ih => exact ih
  | execute _ ho ih =>
    rw [state_of_execute ho]
    exact ih

theorem Reachable.settled (h : c.Reachable (·.returnRegister = 0)) : c.Settled :=
  ⟨h.wellFormed, h.registers.elim id id⟩

end Computer

/-- A computer comes back from its record, in all but its policy. -/
theorem restored_from_record {c : Computer} (h : c.Reachable (·.returnRegister = 0))
    (hcap : c.capacity ≤ maxCapacity) (id : String) :
    (Record.ofComputer id c).toComputer = .ok { c with policy := .lenient } :=
  Record.toComputer_ofComputer h.settled hcap id

/-- The write pointer stands one past the last slot, and the text `10` comes before `2`. -/
theorem restored_past_last_slot :
    let c₁ := ((Computer.ofConfig { capacity := 10, policy := .strict }).setAddress 2).state
    let c₂ := ((c₁.insert "print" none).state.setAddress 10).state
    let c := (c₂.tryInsert " CALL" (some 2)).state
    (c.program.pointer = c.capacity + 1 ∧
      (Record.ofComputer "a" c).program.slots.keys = ["10", "2"]) ∧
    c.Reachable (·.returnRegister = 0) ∧ c.capacity ≤ maxCapacity ∧
      (Record.ofComputer "a" c).toComputer = .ok { c with policy := .lenient } := by
  intro c₁ c₂ c
  have hc : c.Reachable (·.returnRegister = 0) :=
    .build (.tryInsert _ _) (.build (.setAddress _) (.build (.insert _ _)
      (.build (.setAddress _) (.ofConfig _))))
  have hcap : c.capacity ≤ maxCapacity := by decide
  exact ⟨by decide, hc, hcap, restored_from_record hc hcap "a"⟩

/-- A lenient computer comes back from its capacity, registers, write pointer and entries, in
whatever order these are listed. A list of entries makes a computer if all of its addresses have a
slot and the write pointer is at most one past the last; in each slot is what is listed last for its
address. -/
theorem computer_is_its_parts :
    (∀ c : Computer, c.Reachable (fun _ => True) → c.policy = .lenient →
      ∀ es : List (Nat × Instruction), es.Perm c.program.entries →
        Computer.ofParts c.capacity c.registers c.program.pointer es = .ok c) ∧
    (∀ (capacity pointer : Nat) (registers : Registers) (es : List (Nat × Instruction)),
      (∀ e ∈ es, e.1 ≤ capacity) → pointer ≤ capacity + 1 →
        ∃ c, Computer.ofParts capacity registers pointer es = .ok c ∧
          (c.capacity = capacity ∧ c.registers = registers ∧ c.program.pointer = pointer ∧
            c.policy = .lenient) ∧
          ∀ a i, c.program.get? a = some i ↔
            ∃ before after, es = before ++ (a, i) :: after ∧ ∀ e ∈ after, e.1 ≠ a) := by
  constructor
  · intro c hc hlenient es hes
    have hparts := Computer.ofParts_perm_entries hc.wellFormed hes
    rw [Computer.setPolicy_of_policy_eq hlenient] at hparts
    exact hparts
  · intro capacity pointer registers es hes hpointer
    obtain ⟨c, hc, -, hcapacity, hptr, hregisters, hpolicy, hget⟩ :=
      Computer.ofParts_spec registers hes hpointer
    refine ⟨c, hc, ⟨hcapacity, hregisters, hptr, hpolicy⟩, ?_⟩
    intro a i
    rw [hget, lookup_reverse_eq_some_iff]

/-- The write pointer is past the last slot, and both registers are as far off. The list of the
second computer has an address twice. -/
theorem computer_is_its_parts_listed_backwards :
    let registers : Registers := { programCounter := 9, returnRegister := 5 }
    let c₀ : Computer := {
      program := { slots := #[some .mult, none, some .stop, none], capacity := 3, pointer := 3 }
      registers }
    let c := ((BuildCall.tryInsert "Call" (some (-1))).perform c₀).state
    let twice : List (Nat × Instruction) := [(1, .push 3), (0, .stop), (1, .print)]
    (c.program.pointer = 4 ∧ c.program.entries = [(0, .mult), (2, .stop), (3, .call (-1))]) ∧
    (c.Reachable (fun _ => True) ∧ c.policy = .lenient ∧
      Computer.ofParts 3 registers 4 c.program.entries.reverse = .ok c) ∧
    ∃ d, Computer.ofParts 1 registers 2 twice = .ok d ∧ d.program.get? 1 = some .print ∧
      d.program.get? 1 ≠ some (.push 3) := by
  intro registers c₀ c twice
  obtain ⟨hrestored, hmade⟩ := computer_is_its_parts
  have hc₀ : Computer.ofParts 3 registers 3 [(2, .stop), (0, .mult)] = .ok c₀ := rfl
  have hc : c.Reachable fun _ => True := .build _ (.ofParts trivial hc₀)
  obtain ⟨d, hd, -, hslots⟩ := hmade 1 2 registers twice (by decide) (by decide)
  have hprint : d.program.get? 1 = some .print :=
    (hslots 1 .print).mpr ⟨[(1, .push 3), (0, .stop)], [], rfl, nofun⟩
  have hlenient : c.policy = .lenient := by decide
  refine ⟨by decide, ⟨hc, hlenient, hrestored c hc hlenient _ (List.reverse_perm _)⟩, d, hd, hprint,
    ?_⟩
  rw [hprint]
  exact nofun

end StackComputer
