import Mathlib.Data.List.Sort
import StackComputer.Proofs.Durability
import StackComputer.Proofs.Identifiers

/-! # Identifiers are handed out once

The history of a store file from its first opening, through calls that may fail to be written and
through reopenings. The counter in memory never falls behind the one in the file, and no identifier
is returned before the file holds it; so none is returned twice, although one whose creation was
never written may be handed out again.
-/

namespace StackComputer

structure Catalogue.Lists (cat : Catalogue) (ids : List String) : Prop where
  numbered : ∃ ks : List Nat, ids = ks.map identifier ∧ ks.Pairwise (· < ·) ∧
    ∀ k ∈ ks, 1 ≤ k ∧ k ≤ cat.lastId
  mem_keys : ∀ key, key ∈ cat.records.keys ↔ key ∈ ids

namespace Catalogue.Lists

variable {cat : Catalogue} {ids : List String}

theorem empty : Lists {} [] := by
  refine ⟨⟨[], rfl, .nil, by simp⟩, ?_⟩
  intro key
  simp [KeyMap.keys, KeyMap.empty]

theorem exists_number (h : cat.Lists ids) {key : String} (hkey : key ∈ cat.records.keys) :
    ∃ k, 1 ≤ k ∧ k ≤ cat.lastId ∧ key = identifier k := by
  obtain ⟨ks, rfl, -, hks⟩ := h.numbered
  obtain ⟨k, hk, rfl⟩ := List.mem_map.mp ((h.mem_keys key).mp hkey)
  exact ⟨k, (hks k hk).1, (hks k hk).2, rfl⟩

theorem next_not_mem (h : cat.Lists ids) : identifier (cat.lastId + 1) ∉ cat.records.keys := by
  intro hmem
  obtain ⟨k, -, hle, heq⟩ := h.exists_number hmem
  have := identifier_injective heq
  omega

theorem create (h : cat.Lists ids) (capacity : Nat) :
    (cat.create capacity).2.Lists (ids ++ [identifier (cat.lastId + 1)]) := by
  obtain ⟨ks, rfl, hascending, hks⟩ := h.numbered
  constructor
  · refine ⟨ks ++ [cat.lastId + 1], by simp, ?_, ?_⟩
    · rw [List.pairwise_append]
      refine ⟨hascending, List.pairwise_singleton _ _, ?_⟩
      intro k hk l hl
      rw [List.mem_singleton] at hl
      have := (hks k hk).2
      omega
    · intro k hk
      rw [List.mem_append, List.mem_singleton] at hk
      change 1 ≤ k ∧ k ≤ cat.lastId + 1
      rcases hk with hk | rfl
      · have := hks k hk
        omega
      · omega
  · intro key
    rw [List.mem_append, List.mem_singleton, ← h.mem_keys key]
    exact KeyMap.mem_keys_insert.trans Or.comm

theorem insert (h : cat.Lists ids) {id : String} (hid : id ∈ cat.records.keys) (r : Record) :
    Lists { cat with records := cat.records.insert id r } ids := by
  refine ⟨h.numbered, ?_⟩
  intro key
  rw [← h.mem_keys key]
  refine KeyMap.mem_keys_insert.trans ?_
  constructor
  · rintro (rfl | hkey)
    · exact hid
    · exact hkey
  · exact Or.inr

theorem erase (h : cat.Lists ids) (id : String) :
    (cat.erase id).Lists (ids.filter (· ≠ id)) := by
  obtain ⟨ks, rfl, hascending, hks⟩ := h.numbered
  constructor
  · refine ⟨ks.filter (identifier · ≠ id), ?_, hascending.filter _, ?_⟩
    · rw [List.filter_map]
      rfl
    · intro k hk
      exact hks k (List.mem_of_mem_filter hk)
  · intro key
    rw [List.mem_filter, ← h.mem_keys key]
    refine KeyMap.mem_keys_erase.trans ?_
    simp [and_comm]

/-- While seven digits are enough, the order of the texts is the order of the numbers. -/
theorem keys_eq (h : cat.Lists ids) (hlast : cat.lastId < 2 ^ 28) : cat.records.keys = ids := by
  obtain ⟨ks, rfl, hascending, hks⟩ := h.numbered
  have hids : (ks.map identifier).Pairwise (· < ·) := by
    rw [List.pairwise_map]
    refine hascending.imp_of_mem ?_
    intro k l _ hl hkl
    exact identifier_lt_identifier hkl (Nat.lt_of_le_of_lt (hks l hl).2 hlast)
  exact cat.records.keys_ascending.eq_of_mem_iff hids h.mem_keys

end Catalogue.Lists

/-- Whether a call changed what is in memory: what cannot be written stays there. -/
def reachesMemory : Except StoreFault Unit → Bool
  | .ok _ => true
  | .error (.file _) => true
  | .error _ => false

theorem reachesMemory_of_ne_file {fault : StoreFault} (h : ∀ f, fault ≠ .file f) :
    reachesMemory (.error fault) = false := by
  cases fault with
  | file f => exact absurd rfl (h f)
  | _ => rfl

namespace Call

def returned? (call : Call) (s : Store) (d : Disk) : Option String :=
  match call with
  | create capacity => (s.createOn d capacity).result.toOption
  | _ => none

/-- The identifiers in memory after a call that reached it, if the counter then is at `lastId`. -/
def survivors (call : Call) (lastId : Nat) (ids : List String) : List String :=
  match call with
  | create _ => ids ++ [Catalogue.identifier lastId]
  | on op _ => if op.isRemoval then ids.filter (· ≠ op.id) else ids

end Call

inductive Act : Type 1 where
  | call (call : Call)
  /-- The file is opened again, and what was in memory is dropped. -/
  | reopen

structure History where
  store : Store
  disk : Disk
  /-- What creations have returned, the oldest first. -/
  returned : List String := []
  /-- The identifiers in memory, in the order of their creation. -/
  living : List String := []
  /-- Those that memory had when the file was last written. -/
  filed : List String := []

namespace History

def afterCall (h : History) (call : Call) : History :=
  let (result, store, disk) := call.perform h.store h.disk
  let living := if reachesMemory result then call.survivors store.catalogue.lastId h.living
    else h.living
  { store, disk, living
    returned := h.returned ++ (call.returned? h.store h.disk).toList
    filed := if Store.ofFile store.path (disk.read store.path) = .ok store then living
      else h.filed }

def step (h : History) : Act → History
  | .call call => h.afterCall call
  | .reopen =>
    match Store.ofFile h.store.path (h.disk.read h.store.path) with
    | .ok store => { h with store, living := h.filed }
    | .error _ => h

def run (path : String) (d : Disk) (acts : List Act) : History :=
  acts.foldl step { store := { path }, disk := d }

end History

namespace Call

theorem survivors_of_looking {call : Call} (h : call.isMutating = false) (lastId : Nat)
    (ids : List String) : call.survivors lastId ids = ids := by
  cases call with
  | create capacity => cases h
  | on op hop =>
    have hremoval : op.isRemoval = false := by
      cases op with
      | load id => rfl
      | _ => cases h
    rw [survivors, hremoval]
    rfl

theorem reachesMemory_mapError (writing : Except FileFault Unit) :
    reachesMemory (writing.mapError .file) = true := by
  cases writing <;> rfl

theorem Changes.lists {s s' : Store} {call : Call} (h : Changes s call s') {ids : List String}
    (hs : s.catalogue.Lists ids) :
    s'.catalogue.Lists (call.survivors s'.catalogue.lastId ids) := by
  cases h with
  | create _ _ => exact hs.create _
  | @assign _ op _ _ _ hplan =>
    rw [survivors]
    obtain ⟨r, hr, ⟨hremoval, rfl⟩ | ⟨hremoval, c, rfl, -⟩⟩ :=
      Store.Operation.cases_of_assign hplan
    · rw [if_pos hremoval]
      exact hs.erase op.id
    · rw [hremoval]
      exact hs.insert (Store.mem_ids_of_record hr) _

theorem Changes.lastId_le {s s' : Store} {call : Call} (h : Changes s call s') :
    s.catalogue.lastId ≤ s'.catalogue.lastId := by
  cases h with
  | create _ _ => exact Nat.le_succ _
  | assign _ => exact Nat.le_refl _

/-- Only a creation that is written returns an identifier, and that of the next number. -/
theorem of_returned? {call : Call} {s : Store} {d : Disk} {id : String}
    (h : call.returned? s d = some id) :
    (call.isMutating = true ∧ (call.perform s d).1 = .ok ()) ∧
      id = Catalogue.identifier (call.perform s d).2.1.catalogue.lastId ∧
      (call.perform s d).2.1.catalogue.lastId = s.catalogue.lastId + 1 := by
  cases call with
  | on op hop => cases h
  | create capacity =>
    rw [returned?, Store.createOn] at h
    rw [perform, Store.createOn]
    rcases s.create_cases capacity with ⟨fault, hs, -⟩ | ⟨-, -, hs⟩
    · rw [hs, (Store.commit_of_error rfl _ d).1] at h
      cases h
    · rw [hs] at h ⊢
      cases hf : Store.flush { s with catalogue := (s.catalogue.create capacity).2 } d with
      | mk writing d' =>
        rw [(Store.commit_of_ok (o := .ok _ _) rfl hf _).1] at h
        rw [Store.ended_commit_of_ok (o := .ok _ _) rfl hf]
        cases writing with
        | error fault => cases h
        | ok _ =>
          cases h
          exact ⟨⟨rfl, rfl⟩, rfl, rfl⟩

namespace Ends

variable {s s' : Store} {d d' : Disk} {call : Call} {result : Except StoreFault Unit}

theorem lists (h : call.Ends s d (result, s', d')) {ids : List String}
    (hs : s.catalogue.Lists ids) :
    s'.catalogue.Lists (if reachesMemory result = true then
      call.survivors s'.catalogue.lastId ids else ids) := by
  cases h with
  | answered hlooks =>
    rw [survivors_of_looking hlooks, ite_self]
    exact hs
  | refused hfault =>
    rw [reachesMemory_of_ne_file hfault]
    exact hs
  | changed hchanges _ =>
    rw [if_pos (reachesMemory_mapError _)]
    exact hchanges.lists hs

theorem lastId_le (h : call.Ends s d (result, s', d')) :
    s.catalogue.lastId ≤ s'.catalogue.lastId := by
  cases h with
  | answered _ => exact Nat.le_refl _
  | refused _ => exact Nat.le_refl _
  | changed hchanges _ => exact hchanges.lastId_le

/-- The file holds what memory holds, as it has to after a change that succeeds; or it is as it
was. -/
theorem reopens (h : call.Ends s d (result, s', d')) (hs : s'.catalogue.InRange) :
    Store.ofFile s'.path (d'.read s'.path) = .ok s' ∨
      ¬ (call.isMutating = true ∧ result = .ok ()) ∧
        Store.ofFile s'.path (d'.read s'.path) = Store.ofFile s'.path (d.read s'.path) := by
  cases h with
  | answered hlooks => exact .inr ⟨by simp [hlooks], rfl⟩
  | refused _ => exact .inr ⟨nofun, rfl⟩
  | @changed _ _ writing _ hf =>
    rcases Store.reopens_of_flush hf hs with hnew | ⟨hwriting, hold⟩
    · exact .inl hnew
    · refine .inr ⟨?_, hold⟩
      cases writing with
      | ok _ => exact absurd rfl hwriting
      | error fault => exact nofun

end Ends

end Call

namespace History

/-- The file holds a store whose counter is behind that in memory, but not behind any identifier
that was returned. -/
structure Backed (path : String) (h : History) (file : Store) : Prop where
  opened : Store.ofFile path (h.disk.read path) = .ok file
  lists : file.catalogue.Lists h.filed
  lastId_le : file.catalogue.lastId ≤ h.store.catalogue.lastId
  returned : ∀ id ∈ h.returned, ∃ k ≤ file.catalogue.lastId, id = Catalogue.identifier k

structure Sound (path : String) (h : History) : Prop where
  kept : h.store.Kept path
  lists : h.store.catalogue.Lists h.living
  backed : ∃ file, h.Backed path file
  nodup : h.returned.Nodup

variable {path : String} {h : History}

theorem sound_initial {d : Disk} {fault : FileFault} (hread : d.read path = .error fault)
    (habsent : fault.isAbsence = true) : Sound path { store := { path }, disk := d } := by
  have hopen : Store.ofFile path (d.read path) = .ok { path } := by
    rw [hread]
    exact Store.ofFile_of_isAbsence path habsent
  refine ⟨.of_ofFile hopen, .empty, ⟨{ path }, hopen, .empty, Nat.le_refl _, ?_⟩, .nil⟩
  intro id hid
  cases hid

theorem Sound.afterCall (hs : h.Sound path) (call : Call) : (h.afterCall call).Sound path := by
  have hends := call.ends_perform h.store h.disk
  have hkept := hs.kept.perform call h.disk
  have hreturned (id : String) (hid : call.returned? h.store h.disk = some id) :=
    Call.of_returned? hid
  obtain ⟨file, hfile⟩ := hs.backed
  unfold History.afterCall
  generalize call.perform h.store h.disk = after at hends hkept hreturned
  generalize call.returned? h.store h.disk = returned at hreturned
  obtain ⟨result, s', d'⟩ := after
  have hlists := hends.lists hs.lists
  have hle := Nat.le_trans hfile.lastId_le hends.lastId_le
  have hpath : s'.path = path := hkept.path_eq
  have hreopens := hends.reopens hkept.inRange
  rw [hpath] at hreopens
  simp only [hpath]
  refine ⟨hkept, hlists, ?_, ?_⟩
  · -- either the file has caught up with memory, or it is as it was and nothing was returned
    by_cases hnew : Store.ofFile path (d'.read path) = .ok s'
    · refine ⟨s', hnew, by rw [if_pos hnew]; exact hlists, Nat.le_refl _, ?_⟩
      intro id hid
      rcases List.mem_append.mp hid with hid | hid
      · obtain ⟨k, hk, rfl⟩ := hfile.returned id hid
        exact ⟨k, Nat.le_trans hk hle, rfl⟩
      · exact ⟨_, Nat.le_refl _, (hreturned id (Option.mem_toList.mp hid)).2.1⟩
    · obtain ⟨hunwritten, hold⟩ := hreopens.resolve_left hnew
      obtain rfl : returned = none :=
        Option.eq_none_iff_forall_ne_some.mpr fun id hid => hunwritten (hreturned id hid).1
      refine ⟨file, hold.trans hfile.opened, by rw [if_neg hnew]; exact hfile.lists, hle, ?_⟩
      rw [Option.toList_none, List.append_nil]
      exact hfile.returned
  · rw [List.nodup_append]
    refine ⟨hs.nodup, by cases returned <;> simp, ?_⟩
    rintro a ha b hb rfl
    obtain ⟨k, hk, rfl⟩ := hfile.returned a ha
    obtain ⟨-, heq, hnext⟩ := hreturned _ (Option.mem_toList.mp hb)
    have hk' := Catalogue.identifier_injective heq
    have hfile' := hfile.lastId_le
    omega

theorem Sound.reopen (hs : h.Sound path) : (h.step .reopen).Sound path := by
  obtain ⟨file, hfile⟩ := hs.backed
  have hopened : Store.ofFile h.store.path (h.disk.read h.store.path) = .ok file := by
    rw [hs.kept.path_eq]
    exact hfile.opened
  simp only [step, hopened]
  exact ⟨.of_ofFile hfile.opened, hfile.lists,
    ⟨file, hfile.opened, hfile.lists, Nat.le_refl _, hfile.returned⟩, hs.nodup⟩

theorem Sound.step (hs : h.Sound path) (act : Act) : (h.step act).Sound path := by
  cases act with
  | call call => exact hs.afterCall call
  | reopen => exact hs.reopen

theorem Sound.steps (hs : h.Sound path) (acts : List Act) :
    (acts.foldl History.step h).Sound path := by
  induction acts generalizing h with
  | nil => exact hs
  | cons act acts ih => exact ih (hs.step act)

theorem Sound.record_createOn (hs : h.Sound path) {key : String} {r : Record}
    (hr : h.store.record key = .ok r) (capacity : Nat) :
    (h.store.createOn h.disk capacity).state.1.record key = .ok r := by
  have hne : key ≠ Catalogue.identifier (h.store.catalogue.lastId + 1) := by
    rintro rfl
    exact hs.lists.next_not_mem (Store.mem_ids_of_record hr)
  rw [Store.createOn, Store.state_commit, (h.store.record_create_of_ne capacity hne).1, hr]

end History

/-- Whatever is done with a store file from its first opening on, and however often writing fails:
the file can be opened again, no identifier is returned twice, a creation leaves every record alone,
and every identifier has a number that the counter has passed. As long as seven digits are enough,
the identifiers are listed in the order of their creation. -/
theorem identifiers_handed_out_once {path : String} {d : Disk} {fault : FileFault}
    (hread : d.read path = .error fault) (habsent : fault.isAbsence = true) (acts : List Act) :
    let h := History.run path d acts
    (∃ s, Store.ofFile path (h.disk.read path) = .ok s) ∧
    h.returned.Nodup ∧
    (∀ capacity key r, h.store.record key = .ok r →
      (h.store.createOn h.disk capacity).state.1.record key = .ok r) ∧
    (∀ key ∈ h.store.ids, ∃ k, 1 ≤ k ∧ k ≤ h.store.catalogue.lastId ∧
      key = Catalogue.identifier k) ∧
    (h.store.catalogue.lastId < 2 ^ 28 →
      (∀ key, key ∈ h.store.ids ∨ key ∈ h.returned → key.length = 7) ∧
      h.store.ids = h.living) := by
  intro h
  have hs : h.Sound path := (History.sound_initial hread habsent).steps acts
  obtain ⟨file, hfile⟩ := hs.backed
  refine ⟨⟨file, hfile.opened⟩, hs.nodup, ?_, ?_, ?_⟩
  · intro capacity key r hr
    exact hs.record_createOn hr capacity
  · intro key hkey
    exact hs.lists.exists_number hkey
  · intro hlast
    refine ⟨?_, hs.lists.keys_eq hlast⟩
    rintro key (hkey | hkey)
    · obtain ⟨k, -, hk, rfl⟩ := hs.lists.exists_number hkey
      exact Catalogue.length_identifier (Nat.lt_of_le_of_lt hk hlast)
    · obtain ⟨k, hk, rfl⟩ := hfile.returned key hkey
      have hle := hfile.lastId_le
      exact Catalogue.length_identifier (by omega)

/-- The first creation is not written and lost with the reopening, and its identifier is handed out
again; the computer that has it then is removed. -/
theorem identifiers_handed_out_once_after_loss :
    let d : Disk := { Disk.fresh with outages := [some (.other "No space left on device")] }
    let create : Act := .call (.create 5)
    let acts := [create, .reopen, create, create, .call (.on (.remove "0000001") trivial), create]
    d.read "computers.json" = .error .notFound ∧ FileFault.notFound.isAbsence = true ∧
    ∃ h, h = History.run "computers.json" d acts ∧
      h.returned = ["0000001", "0000002", "0000003"] ∧ h.returned.Nodup ∧
      h.store.catalogue.lastId < 2 ^ 28 ∧ h.store.ids = h.living ∧
      h.living = ["0000002", "0000003"] := by
  intro d create acts
  have hread : d.read "computers.json" = .error .notFound := by decide +kernel
  obtain ⟨h, hh⟩ : ∃ h, h = History.run "computers.json" d acts := ⟨_, rfl⟩
  have hlast : h.store.catalogue.lastId < 2 ^ 28 := by
    rw [hh]
    decide +kernel
  have hreturned : h.returned = ["0000001", "0000002", "0000003"] := by
    rw [hh]
    decide +kernel
  have hliving : h.living = ["0000002", "0000003"] := by
    rw [hh]
    decide +kernel
  have hall := identifiers_handed_out_once hread rfl acts
  rw [← hh] at hall
  obtain ⟨-, hnodup, -, -, hsmall⟩ := hall
  exact ⟨hread, rfl, h, hh, hreturned, hnodup, hlast, (hsmall hlast).2, hliving⟩

end StackComputer
