import HalLink.Proofs.Handle.Layout

/-!
Copies of handles, made whole or not at all. A copy fails just where the record cannot be duplicated
as things stand, and then nothing has changed. Only when it is made does the handle that it goes to
let go of what it owned.
-/

set_option autoImplicit false

namespace HalLink

namespace Handle

variable {store : RecordStore} {h x : Handle}

theorem lendsTo_eq_false_iff : h.lendsTo x = false ↔ ∀ i ∈ h.owns, x.record ≠ some i := by
  cases ho : h.owns <;> simp [lendsTo, ho]

/-- The handle is not null and its record cannot be duplicated. -/
def Uncopyable (store : RecordStore) (x : Handle) : Prop :=
  ∃ i, x.record = some i ∧ (store.duplicate (some i)).2 = none

/-- The copy of a null handle is null; any other owns the duplicate of the record, which is new. -/
structure Copies (store store' : RecordStore) (x copy : Handle) : Prop where
  of_null : x.record = none → copy = .null
  of_record : ∀ i, x.record = some i → ∃ c, copy = ⟨some c, true⟩ ∧
    (store.duplicate (some i)).2 = some c ∧ store.records.size ≤ c ∧
    (store'.record? c).isSome ∧ store'.record? c = (store.duplicate (some i)).1.record? c

theorem duplicate_of_uncopyable (h : x.Uncopyable store)
    (hlive : ∀ i ∈ x.record, (store.record? i).isSome) :
    x.duplicate store = (store, .error .handleCopy) := by
  obtain ⟨i, hi, hnone⟩ := h
  obtain ⟨r, hr⟩ := Option.isSome_iff_exists.1 (hlive i hi)
  rcases RecordStore.duplicate_cases hr with ⟨table, made, -, -, he⟩ | he
  · simp [he] at hnone
  · simp [duplicate, hi, he]

theorem duplicate_of_copyable (h : ¬ x.Uncopyable store)
    (hlive : ∀ i ∈ x.record, (store.record? i).isSome) :
    ∃ copy, x.duplicate store = ((store.duplicate x.record).1, .ok copy) ∧
      RecordStore.Change store (store.duplicate x.record).1 none ∧
      Copies store (store.duplicate x.record).1 x copy := by
  cases hrecord : x.record with
  | none =>
    refine ⟨null, by simp [duplicate, hrecord, RecordStore.duplicate], .refl store, fun _ => rfl,
      fun i hi => ?_⟩
    simp [hrecord] at hi
  | some i =>
    obtain ⟨r, hr⟩ := Option.isSome_iff_exists.1 (hlive i hrecord)
    rcases RecordStore.duplicate_cases hr with ⟨table, made, -, -, he⟩ | he
    · refine ⟨⟨some store.records.size, true⟩, by simp [duplicate, hrecord, he], .duplicate hr,
        fun hnone => by simp [hrecord] at hnone, fun j hj => ?_⟩
      obtain rfl : i = j := Option.some.inj (hrecord.symm.trans hj)
      refine ⟨_, rfl, by rw [he], Nat.le_refl _, ?_, rfl⟩
      simp [he, RecordStore.record?_add]
    · exact absurd ⟨i, hrecord, by rw [he]⟩ h

theorem Copies.trans {store' store'' : RecordStore} {copy : Handle} {given : Option Nat}
    (h : Copies store store' x copy) (h' : Arena.Change store'.records store''.records given)
    (hlive : ∀ i ∈ given, (store.record? i).isSome) : Copies store store'' x copy where
  of_null := h.of_null
  of_record i hi := by
    obtain ⟨c, hcopy, hc, hnew, hsome, he⟩ := h.of_record i hi
    obtain ⟨r, hr⟩ := Option.isSome_iff_exists.1 hsome
    have hne : given ≠ some c := by
      intro hgiven
      have hlt := ((Arena.live?_isSome_iff _ c).1 (hlive c hgiven)).1
      omega
    have hkept : store''.record? c = store'.record? c := by
      rw [hr]
      exact h'.live_of_ne hne hr
    exact ⟨c, hcopy, hc, hnew, hkept ▸ hsome, hkept.trans he⟩

end Handle

namespace HandleSession

variable {s : HandleSession} {i k : Nat} {x target : Handle} {owned : Option Nat}

/-- The step is fatal: there is one record in the log, and nothing has changed. -/
structure Fails (s : HandleSession) (after : HandleSession × HandleResult) : Prop where
  session : after.1 = s
  result : after.2 = .fatal .handleCopy
  records : after.2.records =
    [⟨.error, "HidlSupport", "Failed to clone native_handle in hidl_handle."⟩]

/-- Handle `k` has become a copy of `x`. The record that it owned is closed and deleted, once, and
all others are as they were, and so are all other handles. -/
structure Copied (s s' : HandleSession) (k : Nat) (x : Handle) (owned : Option Nat) : Prop where
  copy : ∃ copy, s'.handle? k = some copy ∧ Handle.Copies s.store s'.store x copy
  source : ∀ i ∈ x.record, s'.store.record? i = s.store.record? i
  others : ∀ j, j ≠ k → s'.handle? j = s.handle? j
  deleted : ∀ o ∈ owned, s'.store.record? o = none ∧ s'.store.records.releases o = 1
  kept : ∀ j, owned ≠ some j → s'.store.records.releases j = s.store.records.releases j ∧
    ∀ r, s.store.record? j = some r → s'.store.record? j = some r
  isOpen_iff : ∀ fd, s'.store.table.isOpen fd = true ↔
    (s.store.duplicate x.record).1.table.isOpen fd = true ∧
      ∀ o ∈ owned, ∀ r ∈ s.store.record? o, fd ∉ r.fds

/-- A step that copies `x` to handle `k` does all of it or nothing. -/
structure AllOrNothing (s : HandleSession) (after : HandleSession × HandleResult) (k : Nat)
    (x : Handle) (owned : Option Nat) : Prop where
  fatal_iff : (∃ cause, after.2 = .fatal cause) ↔ x.Uncopyable s.store
  of_uncopyable : x.Uncopyable s.store → Fails s after
  of_copyable : ¬ x.Uncopyable s.store → Copied s after.1 k x owned

theorem allOrNothing_of_fatal {after : HandleSession × HandleResult} (h : x.Uncopyable s.store)
    (hafter : after = (s, .fatal .handleCopy)) : AllOrNothing s after k x owned := by
  subst hafter
  exact ⟨iff_of_true ⟨_, rfl⟩ h, fun _ => ⟨rfl, rfl, rfl⟩, fun hn => absurd h hn⟩

theorem allOrNothing_of_copied {after : HandleSession × HandleResult} (h : ¬ x.Uncopyable s.store)
    (hafter : Copied s after.1 k x owned) (hresult : ∀ cause, after.2 ≠ .fatal cause) :
    AllOrNothing s after k x owned where
  fatal_iff := iff_of_false (fun ⟨cause, hc⟩ => hresult cause hc) h
  of_uncopyable hu := absurd hu h
  of_copyable _ := hafter

theorem copied_of_change {s' : HandleSession} {copy : Handle}
    (hk : s'.handle? k = some copy) (hcopy : Handle.Copies s.store s'.store x copy)
    (hothers : ∀ j, j ≠ k → s'.handle? j = s.handle? j)
    (hchange : Arena.Change s.store.records s'.store.records owned)
    (hsource : ∀ i ∈ x.record, (s.store.record? i).isSome)
    (howned : ∀ o ∈ owned, (s.store.record? o).isSome) (hapart : ∀ o ∈ owned, x.record ≠ some o)
    (hopen : ∀ fd, s'.store.table.isOpen fd = true ↔
      (s.store.duplicate x.record).1.table.isOpen fd = true ∧
        ∀ o ∈ owned, ∀ r ∈ s.store.record? o, fd ∉ r.fds) : Copied s s' k x owned where
  copy := ⟨copy, hk, hcopy⟩
  source i hi := by
    obtain ⟨r, hr⟩ := Option.isSome_iff_exists.1 (hsource i hi)
    rw [hr]
    exact hchange.live_of_ne (fun ho => hapart i ho hi) hr
  others := hothers
  deleted o ho := by
    obtain ⟨r, hr⟩ := Option.isSome_iff_exists.1 (howned o ho)
    have hzero := ((Arena.live?_isSome_iff s.store.records o).1 (howned o ho)).2
    have hreleases := hchange.releases o
    rw [if_pos (Option.mem_def.1 ho), hzero] at hreleases
    exact ⟨(hchange.live hr).trans (if_pos ho), hreleases⟩
  kept j hne := by
    have hreleases := hchange.releases j
    rw [if_neg hne] at hreleases
    exact ⟨hreleases, fun r hr => hchange.live_of_ne hne hr⟩
  isOpen_iff := hopen

theorem isSome_of_isPointer {record : Option Nat} (h : s.isPointer record = true) :
    ∀ i ∈ record, (s.store.record? i).isSome := by
  intro i hi
  obtain rfl := Option.mem_def.1 hi
  exact h

theorem step_duplicate_eq (hx : s.handle? i = some x) (hsource : s.isPointer x.record = true) :
    s.step (.duplicate i) = match x.duplicate s.store with
      | (store, .ok copy) => (s.addHandle store copy, .duplicated s.handles.length copy.record)
      | (store, .error fault) => ({ s with store }, .fatal fault) := by
  simp only [step]
  exact (withHandle_of hx _).trans (withPointer_of hsource _)

theorem step_assignFrom_eq (hx : s.handle? i = some x) (hsource : s.isPointer x.record = true)
    (hk : s.handle? k = some target) (howned : s.isPointer target.owns = true)
    (hapart : target.lendsTo x = false) :
    s.step (.assignFrom k i) = match x.duplicate s.store with
      | (store, .ok copy) => (s.putHandle k (store.giveUp target.owns, copy), .record copy.record)
      | (store, .error fault) => ({ s with store }, .fatal fault) := by
  simp only [step]
  rw [withHandle_of hx, withPointer_of hsource, withHandle_of hk,
    withReleasable_of (isSome_of_isPointer howned), if_neg (by simp [hapart])]
  simp only [Handle.assignFrom, Handle.release_eq]
  cases x.duplicate s.store with
  | mk store copy => cases copy <;> rfl

theorem allOrNothing_duplicate (hx : s.handle? i = some x) (hsource : s.isPointer x.record = true) :
    AllOrNothing s (s.step (.duplicate i)) s.handles.length x none := by
  have hlive := isSome_of_isPointer hsource
  rw [step_duplicate_eq hx hsource]
  by_cases h : x.Uncopyable s.store
  · exact allOrNothing_of_fatal h (by rw [Handle.duplicate_of_uncopyable h hlive])
  · obtain ⟨copy, he, hchange, hcopies⟩ := Handle.duplicate_of_copyable h hlive
    rw [he]
    have hhandles := s.handle?_addHandle (s.store.duplicate x.record).1 copy
    refine allOrNothing_of_copied h (copied_of_change ((hhandles _).trans (if_pos rfl)) hcopies
      (fun j hj => (hhandles j).trans (if_neg hj)) hchange.records hlive (by simp) (by simp)
      fun fd => ?_) (by simp)
    simp [addHandle]

/-- The copy is made first, so what the handle lets go of is closed beside the copy. -/
theorem allOrNothing_assignFrom (hstamped : ∀ j r, s.store.record? j = some r →
      r.version = HandleRecord.stamp)
    (hx : s.handle? i = some x) (hsource : s.isPointer x.record = true)
    (hk : s.handle? k = some target) (howned : s.isPointer target.owns = true)
    (hapart : target.lendsTo x = false) :
    AllOrNothing s (s.step (.assignFrom k i)) k x target.owns := by
  have hlive := isSome_of_isPointer hsource
  have hlive' := isSome_of_isPointer howned
  rw [step_assignFrom_eq hx hsource hk howned hapart]
  by_cases h : x.Uncopyable s.store
  · exact allOrNothing_of_fatal h (by rw [Handle.duplicate_of_uncopyable h hlive])
  · obtain ⟨copy, he, hchange, hcopies⟩ := Handle.duplicate_of_copyable h hlive
    rw [he]
    have hsame : ∀ o ∈ target.owns,
        (s.store.duplicate x.record).1.record? o = s.store.record? o := by
      intro o ho
      obtain ⟨r, hr⟩ := Option.isSome_iff_exists.1 (hlive' o ho)
      rw [hr]
      exact hchange.records.live_of_none hr
    have hlive'' : ∀ o ∈ target.owns, ((s.store.duplicate x.record).1.record? o).isSome := by
      intro o ho
      rw [hsame o ho]
      exact hlive' o ho
    obtain ⟨hrecords, hopen⟩ := RecordStore.letGo_giveUp hlive''
    have hdeletable : (s.store.duplicate x.record).1.deletable? target.owns = target.owns := by
      refine Option.ext fun o => ⟨fun ho => (RecordStore.deletable?_eq_some_iff.1 ho).1,
        fun ho => ?_⟩
      obtain ⟨r, hr⟩ := Option.isSome_iff_exists.1 (hlive' o ho)
      exact RecordStore.deletable?_eq_some_iff.2 ⟨ho, r, (hsame o ho).trans hr, hstamped o r hr⟩
    rw [hdeletable] at hrecords
    have hhandles := handle?_set ((s.store.duplicate x.record).1.giveUp target.owns)
      (lt_of_handle? hk) (some copy)
    refine allOrNothing_of_copied h (copied_of_change ((hhandles _).trans (if_pos rfl))
      (hcopies.trans hrecords hlive') (fun j hj => (hhandles j).trans (if_neg hj))
      (hchange.records.trans_left hrecords) hlive hlive' (Handle.lendsTo_eq_false_iff.1 hapart)
      fun fd => ?_) (by simp)
    refine (hopen fd).trans (and_congr_right fun _ => forall₂_congr fun o ho => ?_)
    rw [hsame o ho]

/-- Main result: after any run of steps that leave the stamps alone, a copy of a handle is fatal if
and only if the handle is not null and its record cannot be duplicated, as things stand before
anything is let go of, and then nothing has changed. Otherwise the copy is new, or takes the place
of what `target` owned or borrowed. -/
theorem copies_all_or_nothing (table : DescriptorTable) (steps : List HandleStep)
    (hsteps : ∀ step ∈ steps, step.restamps = false) :
    let s := (start table).run steps
    ∀ i x, s.handle? i = some x → s.isPointer x.record = true →
      AllOrNothing s (s.step (.duplicate i)) s.handles.length x none ∧
      ∀ k target, s.handle? k = some target → s.isPointer target.owns = true →
        target.lendsTo x = false →
        AllOrNothing s (s.step (.assignFrom k i)) k x target.owns := by
  intro s i x hx hsource
  have hlaid : s.store.LaidOut := laidOut_run (laidOut_start table) hsteps
  exact ⟨allOrNothing_duplicate hx hsource, fun k target hk howned hapart =>
    allOrNothing_assignFrom (fun j r hr => (hlaid j r hr).2) hx hsource hk howned hapart⟩

/-- The table has no free number, and the one that `target` would give back comes too late. With one
more the copy takes that, and only then the old one is closed. -/
theorem copies_all_or_nothing_full_table :
    let steps : List HandleStep := [.openDescriptor, .create 1 0, .setFds 0 0 [3], .new,
      .hold 0 (some 0) true, .create 1 1, .setInts 1 0 [7], .ofRecord (some 1)]
    let full := (start (.withFirst 3 4)).run steps
    let roomy := (start (.withFirst 3 5)).run steps
    (full.step (.assignFrom 0 1)).1 = full ∧
    (full.step (.assignFrom 0 1)).2.records.length = 1 ∧
    Copied roomy (roomy.step (.assignFrom 0 1)).1 0 ⟨some 1, false⟩ (some 0) ∧
    (roomy.step (.assignFrom 0 1)).1.store.record? 2 = some ⟨12, 1, 1, [4, 7]⟩ ∧
    (roomy.step (.assignFrom 0 1)).1.store.table.openNumbers = [0, 1, 2, 4] := by
  intro steps full roomy
  have hsteps : ∀ step ∈ steps, step.restamps = false := by decide
  have hfull := (copies_all_or_nothing (.withFirst 3 4) steps hsteps 1 ⟨some 1, false⟩ rfl rfl).2
    0 ⟨some 0, true⟩ rfl rfl rfl
  have hroomy := (copies_all_or_nothing (.withFirst 3 5) steps hsteps 1 ⟨some 1, false⟩ rfl rfl).2
    0 ⟨some 0, true⟩ rfl rfl rfl
  have hfails := hfull.of_uncopyable ⟨1, rfl, by decide⟩
  have hcopyable : ¬ Handle.Uncopyable roomy.store ⟨some 1, false⟩ := by
    intro hu
    obtain ⟨cause, hc⟩ := hroomy.fatal_iff.2 hu
    cases hc
  exact ⟨hfails.session, by rw [hfails.records]; rfl, hroomy.of_copyable hcopyable, rfl, by decide⟩

end HandleSession

end HalLink
