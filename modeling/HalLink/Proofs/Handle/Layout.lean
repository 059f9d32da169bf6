import HalLink.Proofs.Handle.Words

set_option autoImplicit false

namespace HalLink

/-- The words from `first` on are written over, all others are as they were. -/
structure Overwritten (words words' : List Int) (first : Nat) (values : List Int) : Prop where
  length_eq : words'.length = words.length
  written : ∀ k, k < values.length → words'[first + k]? = values[k]?
  kept : ∀ j, j < first ∨ first + values.length ≤ j → words'[j]? = words[j]?

namespace HandleRecord

/-- The stamp and the counts are as they should be, and the payload is the descriptors followed by
the integers, as many words as the header counts of each. -/
structure Divided (r : HandleRecord) : Prop where
  version_eq : r.version = 12
  fdCount_le : r.fdCount ≤ 1024
  intCount_le : r.intCount ≤ 1024
  length_words : r.words.length = r.fdCount + r.intCount
  length_fds : r.fds.length = r.fdCount
  length_ints : r.ints.length = r.intCount
  fds_append_ints : r.fds ++ r.ints = r.words

variable {r : HandleRecord} {fds ints : Int}

theorem LaidOut.divided (h : r.LaidOut) (hversion : r.version = stamp) : r.Divided where
  version_eq := hversion
  fdCount_le := Int.ofNat_le.1 h.fdCount_le
  intCount_le := Int.ofNat_le.1 h.intCount_le
  length_words := h.length_words
  length_fds := h.length_fds
  length_ints := h.length_ints
  fds_append_ints := h.fds_append_ints

theorem LaidOut.copyWith {made : List Int} (h : r.LaidOut) (hmade : made.length = r.fds.length) :
    (r.copyWith made).LaidOut where
  fdCount_le := h.fdCount_le
  intCount_le := h.intCount_le
  length_words := by
    simp [HandleRecord.copyWith, hmade, h.length_fds, h.length_ints]

theorem overwritten_setWords (r : HandleRecord) (first : Nat) (values : List Int)
    (h : first + values.length ≤ r.words.length) :
    Overwritten r.words (r.setWords first values).words first values := by
  have hbefore : (r.words.take first).length = first := List.length_take_of_le (by omega)
  refine ⟨r.length_words_setWords first values, fun k hk => ?_, fun j hj => ?_⟩
  · rw [words_setWords _ _ _ h, List.append_assoc, List.getElem?_append_right (by omega), hbefore,
      Nat.add_sub_cancel_left, List.getElem?_append_left hk]
  · rw [words_setWords _ _ _ h]
    rcases hj with hj | hj
    · rw [List.append_assoc, List.getElem?_append_left (by omega), List.getElem?_take_of_lt hj]
    · have hlength : (r.words.take first ++ values).length = first + values.length := by
        rw [List.length_append, hbefore]
      rw [List.getElem?_append_right (by omega), hlength, List.getElem?_drop,
        Nat.add_sub_of_le hj]

theorem counts_write (r : HandleRecord) (step : HandleStep) :
    (step.write r).fdCount = r.fdCount ∧ (step.write r).intCount = r.intCount := by
  cases step with
  | setFds i first values =>
    simp only [HandleStep.write, setFds?]
    split <;> simp
  | setInts i first values =>
    simp only [HandleStep.write, setInts?]
    split <;> simp
  | _ => exact ⟨rfl, rfl⟩

end HandleRecord

namespace RecordStore

def LaidOut (s : RecordStore) : Prop :=
  ∀ i r, s.record? i = some r → r.LaidOut ∧ r.version = HandleRecord.stamp

variable {s s' : RecordStore} {i : Nat} {r : HandleRecord}

theorem LaidOut.of_subset (h : s.LaidOut)
    (hsub : ∀ i r, s'.record? i = some r → s.record? i = some r) : s'.LaidOut :=
  fun i r hr => h i r (hsub i r hr)

theorem LaidOut.add (h : s.LaidOut) (hr : r.LaidOut) (hversion : r.version = HandleRecord.stamp) :
    (s.add r).1.LaidOut := by
  intro j r' hj
  rw [record?_add] at hj
  split at hj
  · obtain rfl := Option.some.inj hj
    exact ⟨hr, hversion⟩
  · exact h j r' hj

theorem LaidOut.update (h : s.LaidOut) {f : HandleRecord → HandleRecord}
    (hf : ∀ r, s.record? i = some r → (f r).LaidOut ∧ (f r).version = HandleRecord.stamp) :
    (s.update i f).LaidOut := by
  intro j r' hj
  rw [record?_update] at hj
  split at hj
  · next he =>
    obtain ⟨r, hr, rfl⟩ := Option.map_eq_some_iff.1 hj
    exact hf r (he ▸ hr)
  · exact h j r' hj

theorem LaidOut.create (h : s.LaidOut) (fds ints : Int) : (s.create fds ints).1.LaidOut := by
  rw [RecordStore.create]
  cases hz : HandleRecord.zeroed? fds ints with
  | none => exact h
  | some r =>
    exact h.add (HandleRecord.laidOut_zeroed hz) (by rw [HandleRecord.zeroed?_eq_some hz])

theorem LaidOut.duplicate (h : s.LaidOut) (record : Option Nat) :
    (s.duplicate record).1.LaidOut := by
  cases hr : record.bind s.record? with
  | none => simpa [RecordStore.duplicate, hr] using h
  | some r =>
    obtain ⟨i, rfl, hi⟩ := Option.bind_eq_some_iff.1 hr
    rcases duplicate_cases hi with ⟨table, made, -, hmade, he⟩ | he
    · have htable : LaidOut { s with table } := h
      rw [he]
      exact htable.add ((h i r hi).1.copyWith hmade) rfl
    · rw [he]
      exact h

theorem record?_close (s : RecordStore) (record : Option Nat) (j : Nat) :
    (s.close record).1.record? j = s.record? j := by
  unfold close
  split <;> rfl

theorem record?_of_delete {record : Option Nat} {j : Nat}
    (h : (s.delete record).1.record? j = some r) : s.record? j = some r := by
  have hrelease : ∀ i, record? { s with records := s.records.release i } j = some r →
      s.record? j = some r := by
    intro i hi
    rw [record?, Arena.live?_release] at hi
    split at hi
    · simp at hi
    · exact hi
  cases record with
  | none => exact h
  | some i =>
    rw [delete] at h
    split at h
    · split at h
      · exact hrelease i h
      · exact h
    · exact hrelease i h

theorem LaidOut.close (h : s.LaidOut) (record : Option Nat) : (s.close record).1.LaidOut :=
  h.of_subset fun j _ hj => (s.record?_close record j).symm.trans hj

theorem LaidOut.delete (h : s.LaidOut) (record : Option Nat) : (s.delete record).1.LaidOut :=
  h.of_subset fun _ _ hj => record?_of_delete hj

theorem LaidOut.giveUp (h : s.LaidOut) (record : Option Nat) : (s.giveUp record).LaidOut :=
  (h.close record).delete record

end RecordStore

namespace Handle

variable {store : RecordStore}

theorem laidOut_duplicate (hs : store.LaidOut) (h : Handle) : (h.duplicate store).1.LaidOut := by
  cases hrecord : h.record with
  | none => simpa [duplicate, hrecord] using hs
  | some i =>
    have hstore := hs.duplicate (some i)
    simp only [duplicate, hrecord]
    split
    · next he => rwa [he] at hstore
    · next he => rwa [he] at hstore

theorem laidOut_release (hs : store.LaidOut) (h : Handle) : (h.release store).LaidOut := by
  rw [release_eq]
  exact hs.giveUp h.owns

theorem laidOut_assignFrom (hs : store.LaidOut) (h other : Handle) :
    (h.assignFrom store other).1.LaidOut := by
  have hstore := other.laidOut_duplicate hs
  rw [assignFrom]
  split
  · next he => exact h.laidOut_release (by rwa [he] at hstore)
  · next he => rwa [he] at hstore

end Handle

namespace HandleStep

/-- Whether a step writes to the stamp, which is not for callers to change. -/
def restamps : HandleStep → Bool
  | .setVersion _ _ => true
  | _ => false

end HandleStep

namespace HandleSession

variable {s : HandleSession} {step : HandleStep} {steps : List HandleStep} {i : Nat}
  {r r' : HandleRecord}

def LeavesLaidOut (after : HandleSession × HandleResult) : Prop := after.1.store.LaidOut

theorem leavesLaidOut_write (hs : s.store.LaidOut) (hr : s.store.record? i = some r)
    (slots first : Nat) (values : List Int) (fits : Prop) [Decidable fits] :
    LeavesLaidOut (s.write i slots (if fits then some (r.setWords first values) else none)) := by
  obtain ⟨hlaid, hversion⟩ := hs i r hr
  split
  · exact hs.update fun _ _ =>
      ⟨hlaid.setWords first values, (r.version_setWords first values).trans hversion⟩
  · exact hs

theorem leavesLaidOut_step (hs : s.store.LaidOut) (hstep : step.restamps = false) :
    LeavesLaidOut (s.step step) := by
  -- A step on what was never given, or is gone, leaves the session as it is.
  have hsame : ∀ answer, LeavesLaidOut (s, answer) := fun _ => hs
  cases step with
  | openDescriptor =>
    simp only [HandleSession.step]
    split <;> exact hs
  | closeDescriptor fd => exact hs
  | create fds ints => exact hs.create fds ints
  | setFds i first values =>
    exact withRecord_elim hsame i fun r hr => leavesLaidOut_write hs hr r.fdCount first values _
  | setInts i first values =>
    exact withRecord_elim hsame i fun r hr =>
      leavesLaidOut_write hs hr r.intCount (r.fdCount + first) values _
  | setVersion i version => cases hstep
  | duplicateRecord record => exact withPointer_elim hsame record fun _ => hs.duplicate record
  | closeRecord record => exact withPointer_elim hsame record fun _ => hs.close record
  | deleteRecord record => exact withPointer_elim hsame record fun _ => hs.delete record
  | showRecord i => exact withRecord_elim hsame i fun _ _ => hs
  | new => exact hs
  | ofRecord record => exact withPointer_elim hsame record fun _ => hs
  | borrow k record | hold k record own =>
    exact withPointer_elim hsame record fun _ => withHandle_elim hsame k fun h _ =>
      withReleasable_elim hsame h fun _ => h.laidOut_release hs
  | take k => exact withHandle_elim hsame k fun _ _ => hs
  | duplicate k =>
    refine withHandle_elim hsame k fun h _ => withPointer_elim hsame h.record fun _ => ?_
    have hstore := h.laidOut_duplicate hs
    split
    · next he => rwa [he] at hstore
    · next he => rwa [he] at hstore
  | assignFrom k other =>
    refine withHandle_elim hsame other fun model _ => withPointer_elim hsame model.record fun _ =>
      withHandle_elim hsame k fun h _ => withReleasable_elim hsame h fun _ => ?_
    have hstore := h.laidOut_assignFrom hs model
    split
    · exact hs
    split
    · next he => rwa [he] at hstore
    · next he => rwa [he] at hstore
  | drop k =>
    exact withHandle_elim hsame k fun h _ =>
      withReleasable_elim hsame h fun _ => h.laidOut_release hs
  | showHandle k =>
    exact withHandle_elim hsame k fun h _ => withPointer_elim hsame h.record fun _ => hs

theorem laidOut_run (hs : s.store.LaidOut) (hsteps : ∀ step ∈ steps, step.restamps = false) :
    (s.run steps).store.LaidOut := by
  induction steps generalizing s with
  | nil => exact hs
  | cons step rest ih =>
    obtain ⟨hstep, hrest⟩ := List.forall_mem_cons.1 hsteps
    exact ih (leavesLaidOut_step hs hstep) hrest

theorem laidOut_start (table : DescriptorTable) : (start table).store.LaidOut := by
  intro i r hr
  have hnone : (start table).store.record? i = none := Arena.live?_empty i
  simp [hnone] at hr

section

variable {after : HandleSession × HandleResult} {fds ints : Nat}

theorem Effect.kept_or_released (he : Effect s step after) (hr : s.store.record? i = some r)
    (hwritten : step.written? ≠ some i) :
    after.1.store.record? i = some r ∨ 1 ≤ after.1.store.records.releases i := by
  cases he with
  | stored hchange _ => exact hchange.kept_or_released hr
  | @written j f _ hj =>
    have hne : i ≠ j := fun he => hwritten (he ▸ hj)
    exact .inl (RecordStore.record?_update_of_ne hr hne f)
  | added hchange _ => exact hchange.kept_or_released hr
  | moved _ _ => exact .inl hr
  | put hchange _ _ _ _ => exact hchange.kept_or_released hr

theorem Effect.releases_le (he : Effect s step after) (i : Nat) :
    s.store.records.releases i ≤ after.1.store.records.releases i := by
  cases he with
  | stored hchange _ => exact hchange.le_releases i
  | written _ => exact Nat.le_of_eq (Arena.releases_update _ _ _ _).symm
  | added hchange _ => exact hchange.le_releases i
  | moved _ _ => exact Nat.le_refl _
  | put hchange _ _ _ _ => exact hchange.le_releases i

def Counts (s : HandleSession) (i fds ints : Nat) : Prop :=
  (∃ r, s.store.record? i = some r ∧ r.fdCount = fds ∧ r.intCount = ints) ∨
    1 ≤ s.store.records.releases i

theorem Counts.next (h : s.Counts i fds ints) (step : HandleStep) :
    (s.step step).1.Counts i fds ints := by
  have he := s.effect_step step
  rcases h with ⟨r, hr, hfds, hints⟩ | hreleased
  · by_cases hwritten : step.written? = some i
    · obtain ⟨hfds', hints'⟩ := r.counts_write step
      exact .inl ⟨_, record?_step_written hr hwritten, hfds'.trans hfds, hints'.trans hints⟩
    · exact (he.kept_or_released hr hwritten).imp (fun hr' => ⟨r, hr', hfds, hints⟩) id
  · exact .inr (Nat.le_trans hreleased (he.releases_le i))

theorem Counts.run (h : s.Counts i fds ints) (steps : List HandleStep) :
    (s.run steps).Counts i fds ints := by
  induction steps generalizing s with
  | nil => exact h
  | cons step rest ih => exact ih (h.next step)

theorem Counts.of_live (h : s.Counts i fds ints) (hr : s.store.record? i = some r) :
    r.fdCount = fds ∧ r.intCount = ints := by
  rcases h with ⟨r', hr', hcounts⟩ | hreleased
  · obtain rfl := Option.some.inj (hr'.symm.trans hr)
    exact hcounts
  · have hlive := (s.store.records.live?_isSome_iff i).1 (Option.isSome_of_eq_some hr)
    omega

end

/-- A step that writes values over the words of record `i` from `first` on and changes nothing
else. -/
structure Overwrites (s : HandleSession) (step : HandleStep) (i : Nat) (r : HandleRecord)
    (first : Nat) (values : List Int) : Prop where
  answer : (s.step step).2 = .done
  record : ∃ r', (s.step step).1.store.record? i = some r' ∧ r'.version = r.version ∧
    r'.fdCount = r.fdCount ∧ r'.intCount = r.intCount ∧
    Overwritten r.words r'.words first values
  others : ∀ j, j ≠ i → (s.step step).1.store.record? j = s.store.record? j
  table : (s.step step).1.store.table = s.store.table
  handles : (s.step step).1.handles = s.handles

/-- The steps `write` are for a view of record `i`, of `count` words from `offset` on: they reach
these words, and what does not fit among them is refused. -/
structure ViewedBy (s : HandleSession) (i : Nat) (r : HandleRecord)
    (write : Nat → List Int → HandleStep) (offset count : Nat) : Prop where
  fits : ∀ first values, first + values.length ≤ count →
    s.Overwrites (write first values) i r (offset + first) values
  refused : ∀ first values, count < first + values.length →
    s.step (write first values) = (s, .outOfRange count)

theorem overwrites_of_step {first : Nat} {values : List Int} (hr : s.store.record? i = some r)
    (hstep : s.step step = (s.update i fun _ => r.setWords first values, .done))
    (hfits : first + values.length ≤ r.words.length) : s.Overwrites step i r first values := by
  have hstore : (s.step step).1.store = s.store.update i fun _ => r.setWords first values := by
    rw [hstep]
    rfl
  have hrecord : (s.step step).1.store.record? i = some (r.setWords first values) := by
    rw [hstore]
    exact RecordStore.record?_update_self hr _
  exact {
    answer := by rw [hstep]
    record := ⟨_, hrecord, r.version_setWords first values, r.fdCount_setWords first values,
      r.intCount_setWords first values, r.overwritten_setWords first values hfits⟩
    others := fun j hj => by rw [hstore, RecordStore.record?_update, if_neg hj]
    table := congrArg (fun after => after.1.store.table) hstep
    handles := congrArg (fun after => after.1.handles) hstep }

theorem viewedBy_setFds (hr : s.store.record? i = some r) (h : r.LaidOut) :
    s.ViewedBy i r (.setFds i) 0 r.fdCount where
  fits first values hfits := by
    rw [Nat.zero_add]
    refine overwrites_of_step hr ?_ (h.fds_within hfits)
    simp [step, withRecord, hr, HandleRecord.setFds?, hfits, write]
  refused first values hover := by
    simp [step, withRecord, hr, HandleRecord.setFds?, Nat.not_le.2 hover, write]

theorem viewedBy_setInts (hr : s.store.record? i = some r) (h : r.LaidOut) :
    s.ViewedBy i r (.setInts i) r.fdCount r.intCount where
  fits first values hfits := by
    refine overwrites_of_step hr ?_ (h.ints_within hfits)
    simp [step, withRecord, hr, HandleRecord.setInts?, hfits, write]
  refused first values hover := by
    simp [step, withRecord, hr, HandleRecord.setInts?, Nat.not_le.2 hover, write]

theorem step_closeRecord (s : HandleSession) (record : Option Nat) (j : Nat) :
    (s.step (.closeRecord record)).1.store.record? j = s.store.record? j :=
  withPointer_elim (P := fun after => after.1.store.record? j = s.store.record? j)
    (fun _ => rfl) record fun _ => s.store.record?_close record j

theorem step_deleteRecord (hr : s.store.record? i = some r)
    (hversion : r.version = HandleRecord.stamp) :
    (s.step (.deleteRecord (some i))).2 = .status 0 := by
  simp [step, withPointer, withRecord, hr, RecordStore.delete_some hr hversion]

/-- Main result: records keep their layout. After any run of steps that leave the stamps alone,
every live record carries its stamp and is divided as its counts say. No later step changes the
counts. A write through one of its two views lands on the words of the slots that are named and
nowhere else, or is refused; closing changes no word; and a live record can be deleted. Nor does a
step on records reach beyond the words of a block when it works out word by word where they are. -/
theorem layout_of_run (table : DescriptorTable) (steps : List HandleStep)
    (hsteps : ∀ step ∈ steps, step.restamps = false) :
    let s := (start table).run steps
    (∀ i r, s.store.record? i = some r →
      r.Divided ∧
      (∀ later r', (s.run later).store.record? i = some r' →
        r'.fdCount = r.fdCount ∧ r'.intCount = r.intCount) ∧
      s.ViewedBy i r (.setFds i) 0 r.fdCount ∧
      s.ViewedBy i r (.setInts i) r.fdCount r.intCount ∧
      (s.step (.deleteRecord (some i))).2 = .status 0) ∧
    (∀ record j, (s.step (.closeRecord record)).1.store.record? j = s.store.record? j) ∧
    ∀ step, s.UsesRecords step →
      s.store.toWords.step? s.store.records.size step =
        some ((s.step step).1.store.toWords, (s.step step).2) := by
  intro s
  have hlaid : s.store.LaidOut := laidOut_run (laidOut_start table) hsteps
  refine ⟨fun i r hr => ?_, s.step_closeRecord, fun step => step?_eq fun i r hr => (hlaid i r hr).1⟩
  obtain ⟨hr', hversion⟩ := hlaid i r hr
  have hcounts : s.Counts i r.fdCount r.intCount := .inl ⟨r, hr, rfl, rfl⟩
  exact ⟨hr'.divided hversion, fun later _ => (hcounts.run later).of_live, viewedBy_setFds hr hr',
    viewedBy_setInts hr hr', step_deleteRecord hr hversion⟩

/-- Records of two shapes, one of which a copy is made of. Of the other there is none, since 9 is
not open; the slot that was filled and the block of the copy are given back. -/
theorem layout_of_run_rolled_back :
    let s := (start (.withFirst 3 8)).run [.create 2 1, .setFds 0 0 [0, 9],
      .duplicateRecord (some 0), .create 0 3, .setInts 1 1 [5, 6], .duplicateRecord (some 1),
      .setInts 0 0 [7], .closeRecord (some 2), .deleteRecord (some 1)]
    let r : HandleRecord := ⟨12, 2, 1, [0, 9, 7]⟩
    s.store.record? 0 = some r ∧ s.store.record? 1 = none ∧
    r.Divided ∧ s.Overwrites (.setInts 0 0 [8]) 0 r 2 [8] ∧
    (s.step (.deleteRecord (some 2))).2 = .status 0 ∧
    s.store.toWords.step? 3 (.duplicateRecord (some 0)) =
      some (s.store.toWords, .record none) := by
  intro s r
  obtain ⟨hlive, -, hwords⟩ := layout_of_run (.withFirst 3 8) [.create 2 1, .setFds 0 0 [0, 9],
    .duplicateRecord (some 0), .create 0 3, .setInts 1 1 [5, 6], .duplicateRecord (some 1),
    .setInts 0 0 [7], .closeRecord (some 2), .deleteRecord (some 1)] (by decide)
  obtain ⟨hdivided, -, -, hints, -⟩ := hlive 0 r rfl
  obtain ⟨-, -, -, -, hdelete⟩ := hlive 2 ⟨12, 0, 3, [0, 5, 6]⟩ rfl
  exact ⟨rfl, rfl, hdivided, hints.fits 0 [8] (by decide), hdelete,
    hwords (.duplicateRecord (some 0)) rfl⟩

end HandleSession

end HalLink
