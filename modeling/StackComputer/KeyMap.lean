/-!
Finite maps with text keys, kept in ascending order of the keys. Keys compare by code point, which
is also the order of their UTF-8 bytes. A map has one representation, so maps with the same look-ups
are equal.
-/

namespace StackComputer

structure KeyMap (α : Type) where
  entries : List (String × α)
  ascending : entries.Pairwise fun a b => a.1 < b.1
  deriving DecidableEq

namespace KeyMap

variable {α : Type}

def insertEntry (key : String) (value : α) : List (String × α) → List (String × α)
  | [] => [(key, value)]
  | (k, v) :: rest =>
    if key < k then (key, value) :: (k, v) :: rest
    else if key = k then (key, value) :: rest
    else (k, v) :: insertEntry key value rest

theorem mem_insertEntry {key : String} {value : α} {e : String × α} {es : List (String × α)}
    (h : e ∈ insertEntry key value es) : e = (key, value) ∨ e ∈ es := by
  induction es with
  | nil => simpa [insertEntry] using h
  | cons hd rest ih => grind [insertEntry]

theorem pairwise_insertEntry (key : String) (value : α) {es : List (String × α)}
    (h : es.Pairwise fun a b => a.1 < b.1) :
    (insertEntry key value es).Pairwise fun a b => a.1 < b.1 := by
  induction es with
  | nil => simp [insertEntry]
  | cons hd rest ih =>
    obtain ⟨k, v⟩ := hd
    rw [List.pairwise_cons] at h
    rw [insertEntry]
    split
    · rename_i lt
      refine .cons (fun e he => ?_) (.cons h.1 h.2)
      rcases List.mem_cons.1 he with rfl | he
      · exact lt
      · exact String.lt_trans lt (h.1 e he)
    · split
      · rename_i eq
        exact .cons (fun e he => eq ▸ h.1 e he) h.2
      · rename_i ge ne
        refine .cons (fun e he => ?_) (ih h.2)
        rcases mem_insertEntry he with rfl | he
        · exact Std.lt_of_le_of_ne (String.not_lt.1 ge) (Ne.symm ne)
        · exact h.1 e he

def empty : KeyMap α := ⟨[], .nil⟩

def insert (m : KeyMap α) (key : String) (value : α) : KeyMap α :=
  ⟨insertEntry key value m.entries, pairwise_insertEntry key value m.ascending⟩

def erase (m : KeyMap α) (key : String) : KeyMap α :=
  ⟨m.entries.filter fun e => e.1 != key, m.ascending.filter _⟩

def get? (m : KeyMap α) (key : String) : Option α := m.entries.lookup key

def keys (m : KeyMap α) : List String := m.entries.map (·.1)

def size (m : KeyMap α) : Nat := m.entries.length

/-- Binds the keys in order: of several bindings for a key the last one stands. -/
def ofList (es : List (String × α)) : KeyMap α :=
  es.foldl (fun m e => m.insert e.1 e.2) empty

end KeyMap

end StackComputer
