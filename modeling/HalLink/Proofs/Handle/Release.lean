import HalLink.Proofs.Handle.Duplication
import HalLink.Proofs.Handle.Steps

set_option autoImplicit false

namespace HalLink

namespace HandleRecord

def afterStep (i : Nat) (r : HandleRecord) (step : HandleStep) : HandleRecord :=
  if step.written? = some i then step.write r else r

def after (i : Nat) (r : HandleRecord) (steps : List HandleStep) : HandleRecord :=
  steps.foldl (afterStep i) r

variable {r : HandleRecord} {i first : Nat} {values : List Int} {fds ints : Int}

@[simp] theorem length_words_setWords (r : HandleRecord) (first : Nat) (values : List Int) :
    (r.setWords first values).words.length = r.words.length := by
  induction values generalizing r first with
  | nil => rfl
  | cons value rest ih => exact (ih _ _).trans (List.length_set ..)

theorem LaidOut.setWords (h : r.LaidOut) (first : Nat) (values : List Int) :
    (r.setWords first values).LaidOut := by
  have hwords := length_words_setWords r first values
  rw [setWords_eq] at hwords ⊢
  exact ⟨h.fdCount_le, h.intCount_le, hwords.trans h.length_words⟩

theorem laidOut_zeroed (h : zeroed? fds ints = some r) : r.LaidOut := by
  simp only [zeroed?] at h
  split at h
  · next hcounts =>
    obtain rfl := Option.some.inj h
    exact ⟨by simp; omega, by simp; omega, by simp⟩
  · simp at h

theorem fds_zeroed (h : zeroed? fds ints = some r) : r.fds = List.replicate fds.toNat 0 := by
  obtain rfl := zeroed?_eq_some h
  simp [HandleRecord.fds]

theorem fds_setWords (h : r.LaidOut) (hfits : first + values.length ≤ r.fdCount) :
    (r.setWords first values).fds =
      r.fds.take first ++ values ++ r.fds.drop (first + values.length) := by
  have hlength : first + values.length ≤ r.words.length := by
    rw [h.length_words]
    omega
  have hfirst : first ≤ r.words.length := Nat.le_of_add_right_le hlength
  have hvalues : values.take (r.fdCount - first) = values := List.take_of_length_le (by omega)
  rw [HandleRecord.fds, fdCount_setWords, words_setWords r first values hlength]
  simp [HandleRecord.fds, List.take_append, List.take_take, List.drop_take, hfirst, hvalues,
    Nat.min_comm, Nat.sub_sub]

theorem fds_setWords_of_le (hle : r.fdCount ≤ first)
    (hfits : first + values.length ≤ r.words.length) : (r.setWords first values).fds = r.fds := by
  have hfirst : first ≤ r.words.length := Nat.le_of_add_right_le hfits
  rw [HandleRecord.fds, fdCount_setWords, words_setWords r first values hfits]
  simp [HandleRecord.fds, List.take_append, List.take_take, hfirst, hle]

end HandleRecord

namespace HandleStep

/-- What a caller has stored in the descriptor slots of record `i`, if anything. -/
def fill (i : Nat) (slots : List (Option Int)) : HandleStep → List (Option Int)
  | .setFds j first values =>
    if j = i ∧ first + values.length ≤ slots.length then
      slots.take first ++ values.map some ++ slots.drop (first + values.length)
    else slots
  | _ => slots

/-- What a caller does while it has record `i` to itself: anything to descriptors and records, but
it does not release this one, and it knows nothing of the stamp. -/
def Prepares (i : Nat) : HandleStep → Prop
  | .openDescriptor | .closeDescriptor _ | .create _ _ | .setFds _ _ _ | .setInts _ _ _
  | .duplicateRecord _ | .showRecord _ => True
  | .setVersion j _ => j ≠ i
  | .closeRecord record | .deleteRecord record => record ≠ some i
  | _ => False

instance (i : Nat) : (step : HandleStep) → Decidable (step.Prepares i)
  | .openDescriptor | .closeDescriptor _ | .create _ _ | .setFds _ _ _ | .setInts _ _ _
  | .duplicateRecord _ | .showRecord _ => .isTrue trivial
  | .setVersion j _ => inferInstanceAs (Decidable (j ≠ i))
  | .closeRecord record | .deleteRecord record => inferInstanceAs (Decidable (record ≠ some i))
  | .new | .ofRecord _ | .borrow _ _ | .hold _ _ _ | .take _ | .duplicate _ | .assignFrom _ _
  | .drop _ | .showHandle _ => .isFalse id

end HandleStep

namespace HandleRecord

variable {r : HandleRecord} {i : Nat} {slots : List (Option Int)} {step : HandleStep}
  {steps : List HandleStep}

/-- The record has a word for each slot. Where nothing was stored in a slot for descriptors, that
word is zero as it was made. -/
structure Holds (r : HandleRecord) (slots : List (Option Int)) : Prop where
  laidOut : r.LaidOut
  version_eq : r.version = stamp
  fds_eq : r.fds = slots.map (·.getD 0)

theorem Holds.length_slots (h : r.Holds slots) : slots.length = r.fdCount := by
  rw [← h.laidOut.length_fds, h.fds_eq, List.length_map]

theorem Holds.setFds (h : r.Holds slots) (first : Nat) (values : List Int) :
    ((HandleStep.setFds i first values).write r).Holds
      ((HandleStep.setFds i first values).fill i slots) := by
  have hlength := h.length_slots
  by_cases hfits : first + values.length ≤ slots.length
  · have hset : r.setFds? first values = some (r.setWords first values) := if_pos (hlength ▸ hfits)
    simp only [HandleStep.write, hset, HandleStep.fill, hfits, and_self, if_true, Option.getD_some]
    refine ⟨h.laidOut.setWords first values, (version_setWords ..).trans h.version_eq, ?_⟩
    rw [fds_setWords h.laidOut (hlength ▸ hfits), h.fds_eq]
    simp [List.map_take, List.map_drop, Function.comp_def]
  · have hset : r.setFds? first values = none := if_neg (hlength ▸ hfits)
    simp only [HandleStep.write, hset, HandleStep.fill, hfits, and_false, if_false,
      Option.getD_none]
    exact h

theorem Holds.setInts (h : r.Holds slots) (first : Nat) (values : List Int) :
    ((HandleStep.setInts i first values).write r).Holds slots := by
  by_cases hfits : first + values.length ≤ r.intCount
  · have hset : r.setInts? first values = some (r.setWords (r.fdCount + first) values) :=
      if_pos hfits
    simp only [HandleStep.write, hset, Option.getD_some]
    refine ⟨h.laidOut.setWords _ values, (version_setWords ..).trans h.version_eq, ?_⟩
    rw [fds_setWords_of_le (Nat.le_add_right _ _) (by rw [h.laidOut.length_words]; omega),
      h.fds_eq]
  · have hset : r.setInts? first values = none := if_neg hfits
    simp only [HandleStep.write, hset, Option.getD_none]
    exact h

theorem Holds.afterStep (h : r.Holds slots) (hs : step.Prepares i) :
    (r.afterStep i step).Holds (step.fill i slots) := by
  unfold HandleRecord.afterStep
  cases step with
  | setFds j first values =>
    by_cases hj : j = i
    · subst hj
      simpa [HandleStep.written?] using h.setFds first values
    · simpa [HandleStep.written?, HandleStep.fill, hj] using h
  | setInts j first values =>
    by_cases hj : j = i
    · simpa [HandleStep.written?, HandleStep.fill, hj] using h.setInts first values
    · simpa [HandleStep.written?, HandleStep.fill, hj] using h
  | setVersion j version =>
    have hj : j ≠ i := hs
    simpa [HandleStep.written?, HandleStep.fill, hj] using h
  | _ => exact h

theorem Holds.after (h : r.Holds slots) (hs : ∀ step ∈ steps, step.Prepares i) :
    (r.after i steps).Holds (steps.foldl (HandleStep.fill i) slots) := by
  induction steps generalizing r slots with
  | nil => exact h
  | cons step rest ih =>
    obtain ⟨hstep, hrest⟩ := List.forall_mem_cons.1 hs
    exact ih (h.afterStep hstep) hrest

theorem Holds.mem_fds_iff (h : r.Holds slots) (fd : Int) :
    fd ∈ r.fds ↔ some fd ∈ slots ∨ fd = 0 ∧ none ∈ slots := by
  rw [h.fds_eq, List.mem_map]
  constructor
  · rintro ⟨slot, hslot, rfl⟩
    cases slot with
    | none => exact .inr ⟨rfl, hslot⟩
    | some fd => exact .inl hslot
  · rintro (hslot | ⟨rfl, hslot⟩)
    · exact ⟨some fd, hslot, rfl⟩
    · exact ⟨none, hslot, rfl⟩

theorem holds_zeroed {fds ints : Int} (h : zeroed? fds ints = some r) :
    r.Holds (List.replicate fds.toNat none) where
  laidOut := laidOut_zeroed h
  version_eq := by rw [zeroed?_eq_some h]
  fds_eq := by simp [fds_zeroed h]

end HandleRecord

namespace RecordStore

structure Released (s s' : RecordStore) (i : Nat) (r : HandleRecord) : Prop where
  live : s.record? i = some r
  gone : s'.record? i = none
  releases : s.records.releases i = 0 ∧ s'.records.releases i = 1
  isOpen_eq : ∀ fd, s'.table.isOpen fd = (s.table.isOpen fd && decide (fd ∉ r.fds))
  others : ∀ j, j ≠ i →
    s'.record? j = s.record? j ∧ s'.records.releases j = s.records.releases j

variable {s s' : RecordStore} {i : Nat} {r : HandleRecord}

theorem released_giveUp (hr : s.record? i = some r) (hversion : r.version = HandleRecord.stamp) :
    s.Released (s.giveUp (some i)) i r := by
  have hreleases := Arena.releases_release (Arena.lt_size_of_live? hr)
  have hzero := ((s.records.live?_isSome_iff i).1 (Option.isSome_of_eq_some hr)).2
  rw [giveUp_some hr hversion]
  refine ⟨hr, s.records.live?_release_self i, ⟨hzero, ?_⟩, fun fd => ?_, fun j hj => ⟨?_, ?_⟩⟩
  · simp [hreleases, hzero]
  · exact s.table.isOpen_closeAll r.fds fd
  · exact s.records.live?_release_of_ne (Ne.symm hj)
  · simp [hreleases, hj]

/-- A release closes a descriptor that was not stored in the record just if 0 is open and stands for
a slot in which nothing was stored. -/
theorem Released.closes_stored_iff (h : s.Released s' i r) {slots : List (Option Int)}
    (hr : r.Holds slots) :
    (∀ fd, s.table.isOpen fd = true → s'.table.isOpen fd = false → some fd ∈ slots) ↔
      none ∉ slots ∨ some 0 ∈ slots ∨ s.table.isOpen 0 = false := by
  have hclosed : ∀ fd, s.table.isOpen fd = true →
      (s'.table.isOpen fd = false ↔ some fd ∈ slots ∨ fd = 0 ∧ none ∈ slots) := by
    intro fd ho
    rw [h.isOpen_eq, ho, ← hr.mem_fds_iff]
    simp
  constructor
  · intro hstored
    by_cases hnone : none ∈ slots
    · by_cases ho : s.table.isOpen 0 = true
      · exact .inr (.inl (hstored 0 ho ((hclosed 0 ho).2 (.inr ⟨rfl, hnone⟩))))
      · exact .inr (.inr (by simpa using ho))
    · exact .inl hnone
  · intro hslots fd ho hc
    rcases (hclosed fd ho).1 hc with hslot | ⟨rfl, hnone⟩
    · exact hslot
    · rcases hslots with hnot | hzero | hshut
      · exact absurd hnone hnot
      · exact hzero
      · simp [ho] at hshut

theorem table_giveUp_zeroed {fds ints : Int} (h0 : 0 ≤ fds)
    (hz : HandleRecord.zeroed? fds ints = some r) (hr : s.record? i = some r) :
    (s.giveUp (some i)).table = s.table ↔ fds = 0 ∨ s.table.isOpen 0 = false := by
  have hclose : (s.giveUp (some i)).table = s.table.closeAll r.fds :=
    congrArg table (giveUp_some hr (HandleRecord.holds_zeroed hz).version_eq)
  rw [hclose, DescriptorTable.closeAll_eq_self_iff, HandleRecord.fds_zeroed hz]
  have hcount : fds.toNat = 0 ↔ fds = 0 := by omega
  simp only [List.mem_replicate, ← hcount]
  constructor
  · intro h
    by_cases hn : fds.toNat = 0
    · exact .inl hn
    · exact .inr (h 0 ⟨hn, rfl⟩)
  · rintro (hn | hshut) fd ⟨hne, rfl⟩
    · exact absurd hn hne
    · exact hshut

end RecordStore

namespace HandleSession

variable {s : HandleSession} {i : Nat} {r : HandleRecord} {steps : List HandleStep}

def run (s : HandleSession) (steps : List HandleStep) : HandleSession :=
  steps.foldl (fun s step => (s.step step).1) s

theorem record?_afterStep {step : HandleStep} (hr : s.store.record? i = some r)
    (hgiven : s.givenUp? step ≠ some i) :
    (s.step step).1.store.record? i = some (r.afterStep i step) := by
  unfold HandleRecord.afterStep
  split
  · next hwritten => exact record?_step_written hr hwritten
  · next hwritten => exact (s.effect_step step).record? hr hwritten hgiven

theorem givenUp?_of_prepares {step : HandleStep} (hs : step.Prepares i) :
    s.givenUp? step ≠ some i := by
  cases step with
  | deleteRecord record => exact hs
  | borrow _ _ | hold _ _ _ | assignFrom _ _ | drop _ => exact hs.elim
  | _ => simp [givenUp?]

theorem record?_run (hr : s.store.record? i = some r) (hs : ∀ step ∈ steps, step.Prepares i) :
    (s.run steps).store.record? i = some (r.after i steps) := by
  induction steps generalizing s r with
  | nil => exact hr
  | cons step rest ih =>
    obtain ⟨hstep, hrest⟩ := List.forall_mem_cons.1 hs
    exact ih (record?_afterStep hr (givenUp?_of_prepares hstep)) hrest

theorem step_close_delete (hr : s.store.record? i = some r)
    (hversion : r.version = HandleRecord.stamp) :
    (s.step (.closeRecord (some i))).2 = .status 0 ∧
    (s.step (.closeRecord (some i))).1.step (.deleteRecord (some i)) =
      ({ s with store := s.store.giveUp (some i) }, .status 0) := by
  have hclose : s.step (.closeRecord (some i)) =
      ({ s with store := { s.store with table := s.store.table.closeAll r.fds } }, .status 0) := by
    simp [step, withPointer, withRecord, hr, RecordStore.close_some hr]
  have hr' : { s.store with table := s.store.table.closeAll r.fds }.record? i = some r := hr
  rw [hclose]
  simp [step, withPointer, withRecord, hr', RecordStore.delete_some hr' hversion,
    RecordStore.giveUp_some hr hversion]

theorem step_create {fds ints : Int} (hz : HandleRecord.zeroed? fds ints = some r) :
    (s.step (.create fds ints)).2 = .record (some s.store.records.size) ∧
    (s.step (.create fds ints)).1.store.record? s.store.records.size = some r ∧
    (s.step (.create fds ints)).1.store.table = s.store.table := by
  have hadd := RecordStore.record?_add s.store r s.store.records.size
  rw [if_pos rfl] at hadd
  simp only [step, RecordStore.create, hz]
  exact ⟨rfl, hadd, rfl⟩

/-- Main result: a record that its caller makes, fills and releases is closed and deleted once, and
nothing else is. What is closed beside the caller's own descriptors is 0, for the slots that were
left as they were made; so nothing else is closed just if no slot was, or 0 was stored in another
one, or is not open. -/
theorem release_closes_slots (s : HandleSession) (fds ints : Int) (steps : List HandleStep)
    (hfds : 0 ≤ fds ∧ fds ≤ HandleRecord.maxFds) (hints : 0 ≤ ints ∧ ints ≤ HandleRecord.maxInts)
    (hsteps : ∀ step ∈ steps, step.Prepares s.store.records.size) :
    let i := s.store.records.size
    let created := s.step (.create fds ints)
    let filled := created.1.run steps
    let closed := filled.step (.closeRecord (some i))
    let deleted := closed.1.step (.deleteRecord (some i))
    let slots := steps.foldl (HandleStep.fill i) (List.replicate fds.toNat none)
    created.2 = .record (some i) ∧ closed.2 = .status 0 ∧ deleted.2 = .status 0 ∧
    (∃ r, r.fds = slots.map (·.getD 0) ∧ filled.store.Released deleted.1.store i r) ∧
    ((∀ fd, filled.store.table.isOpen fd = true → deleted.1.store.table.isOpen fd = false →
        some fd ∈ slots) ↔
      none ∉ slots ∨ some 0 ∈ slots ∨ filled.store.table.isOpen 0 = false) ∧
    (steps = [] → (deleted.1.store.table = s.store.table ↔
      fds = 0 ∨ s.store.table.isOpen 0 = false)) := by
  intro i created filled closed deleted slots
  obtain ⟨r, hz⟩ : ∃ r, HandleRecord.zeroed? fds ints = some r :=
    ⟨_, if_pos ⟨hfds.1, hfds.2, hints.1, hints.2⟩⟩
  obtain ⟨hcreated, hr, htable⟩ := step_create (s := s) hz
  have hholds := (HandleRecord.holds_zeroed hz).after hsteps
  have hfilled : filled.store.record? i = some (r.after i steps) := record?_run hr hsteps
  obtain ⟨hclose, hdelete⟩ := step_close_delete hfilled hholds.version_eq
  have hreleased := RecordStore.released_giveUp hfilled hholds.version_eq
  have hstore : deleted.1.store = filled.store.giveUp (some i) := by
    simp only [deleted, closed, hdelete]
  refine ⟨hcreated, hclose, congrArg Prod.snd hdelete, ⟨_, hholds.fds_eq, hstore ▸ hreleased⟩, ?_,
    fun hnil => ?_⟩
  · rw [hstore]
    exact hreleased.closes_stored_iff hholds
  · subst hnil
    rw [hstore, ← htable]
    exact RecordStore.table_giveUp_zeroed hfds.1 hz hfilled

/-- Two records with two slots for descriptors each. Both slots of the one are filled, though not in
their order, and its release closes 3 and 4; of the other one only the second slot is, and
descriptor 0 goes with 3. -/
theorem release_closes_slots_half_filled :
    let s := (initial.step (.create 2 1)).1
    let full := s.run [.openDescriptor, .openDescriptor, .setFds 0 1 [3], .setFds 0 0 [4]]
    let half := s.run [.openDescriptor, .openDescriptor, .setFds 0 1 [3], .setFds 0 1 [4, 4]]
    let released (s : HandleSession) :=
      ((s.step (.closeRecord (some 0))).1.step (.deleteRecord (some 0))).1.store
    (∀ fd, full.store.table.isOpen fd = true → (released full).table.isOpen fd = false →
      fd = 4 ∨ fd = 3) ∧
    ∃ r, r.fds = [0, 3] ∧ half.store.Released (released half) 0 r := by
  intro s full half released
  obtain ⟨-, -, -, -, hfull, -⟩ := release_closes_slots initial 2 1
    [.openDescriptor, .openDescriptor, .setFds 0 1 [3], .setFds 0 0 [4]] (by decide) (by decide)
    (by decide)
  obtain ⟨-, -, -, hhalf, -, -⟩ := release_closes_slots initial 2 1
    [.openDescriptor, .openDescriptor, .setFds 0 1 [3], .setFds 0 1 [4, 4]] (by decide) (by decide)
    (by decide)
  refine ⟨fun fd ho hc => ?_, hhalf⟩
  have hstored : some fd ∈ [some 4, some 3] := hfull.2 (.inl (by decide)) fd ho hc
  simpa using hstored

/-- A release that closes what its caller never had: nothing was stored in the record, and the
standard input is closed. -/
theorem exists_release_closing_unstored :
    let s := (initial.step (.create 1 0)).1
    let closed := s.step (.closeRecord (some 0))
    let deleted := closed.1.step (.deleteRecord (some 0))
    s.store.record? 0 = some ⟨12, 1, 0, [0]⟩ ∧ s.store.table.isOpen 0 = true ∧
    closed.2 = .status 0 ∧ deleted.2 = .status 0 ∧
    deleted.1.store.table.isOpen 0 = false := by
  decide

end HandleSession

end HalLink
