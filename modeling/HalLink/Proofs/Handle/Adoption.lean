import HalLink.Proofs.Handle.Release

set_option autoImplicit false

namespace HalLink

/-- A step of others: it leaves handle `k` as it is and does not release record `i`, nor does it
hand the record to another owner. The stamp is not for callers to change. -/
def HandleStep.Spares (k i : Nat) (step : HandleStep) : Prop :=
  step.target? ≠ some k ∧
  match step with
  | .closeRecord record | .deleteRecord record => record ≠ some i
  | .hold _ record own => own = true → record ≠ some i
  | .setVersion j _ => j ≠ i
  | _ => True

instance (k i : Nat) (step : HandleStep) : Decidable (step.Spares k i) :=
  @instDecidableAnd _ _ inferInstance <|
    match step with
    | .closeRecord record | .deleteRecord record => inferInstanceAs (Decidable (record ≠ some i))
    | .hold _ record own => inferInstanceAs (Decidable (own = true → record ≠ some i))
    | .setVersion j _ => inferInstanceAs (Decidable (j ≠ i))
    | .openDescriptor | .closeDescriptor _ | .create _ _ | .setFds _ _ _ | .setInts _ _ _
    | .duplicateRecord _ | .showRecord _ | .new | .ofRecord _ | .borrow _ _ | .take _ | .duplicate _
    | .assignFrom _ _ | .drop _ | .showHandle _ => .isTrue trivial

namespace HandleSession

variable {s : HandleSession} {k i : Nat} {r : HandleRecord} {h : Handle} {step : HandleStep}
  {steps : List HandleStep}

/-- Handle `k` owns record `i`, which is live, and no other handle does. -/
structure Keeps (s : HandleSession) (k i : Nat) (r : HandleRecord) : Prop where
  handle : s.handle? k = some ⟨some i, true⟩
  record : s.store.record? i = some r
  version_eq : r.version = HandleRecord.stamp
  sole : ∀ j h, j ≠ k → s.handle? j = some h → h.owns ≠ some i

theorem version_afterStep (hversion : r.version = HandleRecord.stamp) (hs : step.Spares k i) :
    (r.afterStep i step).version = HandleRecord.stamp := by
  unfold HandleRecord.afterStep
  split
  · next hwritten =>
    cases step with
    | setFds j first values =>
      simp only [HandleStep.write, HandleRecord.setFds?]
      split <;> simpa using hversion
    | setInts j first values =>
      simp only [HandleStep.write, HandleRecord.setInts?]
      split <;> simpa using hversion
    | setVersion j version => exact absurd (Option.some.inj hwritten) hs.2
    | _ => cases hwritten
  · exact hversion

theorem Keeps.givenUp?_ne (h : s.Keeps k i r) (hs : step.Spares k i) :
    s.givenUp? step ≠ some i := by
  have howned : ∀ j, j ≠ k → s.owned? j ≠ some i := by
    intro j hj ho
    obtain ⟨x, hx, hown⟩ := Option.bind_eq_some_iff.1 ho
    exact h.sole j x hj hx hown
  have htarget : ∀ j, step.target? = some j → j ≠ k := by
    intro j hj he
    exact hs.1 (he ▸ hj)
  cases step with
  | deleteRecord record => exact hs.2
  | borrow j _ | hold j _ _ | assignFrom j _ | drop j => exact howned j (htarget j rfl)
  | _ => simp [givenUp?]

theorem Keeps.spared (h : s.Keeps k i r) (hs : step.Spares k i) :
    (s.step step).1.Keeps k i (r.afterStep i step) where
  handle := (s.effect_step step).handle? h.handle hs.1
  record := record?_afterStep h.record (h.givenUp?_ne hs)
  version_eq := version_afterStep h.version_eq hs
  sole j x hj hx ho := by
    rcases (s.effect_step step).owner hx ho with ⟨j', hx', hsame⟩ | rfl | hnew
    · by_cases hk : j' = k
      · rcases hsame with he | htarget
        · exact hj (he ▸ hk)
        · exact hs.1 (hk ▸ htarget)
      · exact h.sole j' x hk hx' ho
    · exact hs.2 rfl rfl
    · simp [h.record] at hnew

theorem Keeps.run (h : s.Keeps k i r) (hs : ∀ step ∈ steps, step.Spares k i) :
    (s.run steps).Keeps k i (r.after i steps) := by
  induction steps generalizing s r with
  | nil => exact h
  | cons step rest ih =>
    obtain ⟨hstep, hrest⟩ := List.forall_mem_cons.1 hs
    exact ih (h.spared hstep) hrest

theorem isSome_of_owner (hr : s.store.record? i = some r) :
    ∀ o ∈ (Handle.mk (some i) true).owns, (s.store.record? o).isSome := by
  intro o ho
  obtain rfl : i = o := Option.some.inj ho
  exact Option.isSome_of_eq_some hr

theorem Keeps.step_drop (h : s.Keeps k i r) :
    (s.step (.drop k)).2 = .done ∧ (s.step (.drop k)).1.handle? k = none ∧
      s.store.Released (s.step (.drop k)).1.store i r := by
  have hdrop : s.step (.drop k) =
      (⟨s.store.giveUp (some i), s.handles.set k none⟩, .done) := by
    simp only [HandleSession.step]
    rw [withHandle_of h.handle, withReleasable_of (isSome_of_owner h.record), Handle.release_eq]
    rfl
  rw [hdrop]
  exact ⟨rfl, (handle?_set _ (lt_of_handle? h.handle) none k).trans (if_pos rfl),
    RecordStore.released_giveUp h.record h.version_eq⟩

theorem step_hold_eq (hk : s.handle? k = some h)
    (hlive : ∀ o ∈ h.owns, (s.store.record? o).isSome) (hr : s.store.record? i = some r) :
    s.step (.hold k (some i) true) =
      (⟨s.store.giveUp h.owns, s.handles.set k (some ⟨some i, true⟩)⟩, .done) := by
  simp only [HandleSession.step]
  rw [withPointer_of (by simp [isPointer, hr]), withHandle_of hk, withReleasable_of hlive,
    Handle.hold, Handle.release_eq]
  rfl

theorem keeps_hold (hk : s.handle? k = some h)
    (hlive : ∀ o ∈ h.owns, (s.store.record? o).isSome) (hr : s.store.record? i = some r)
    (hversion : r.version = HandleRecord.stamp)
    (hsole : ∀ j x, j ≠ k → s.handle? j = some x → x.owns ≠ some i) (hne : h.owns ≠ some i) :
    (s.step (.hold k (some i) true)).1.Keeps k i r := by
  have hset := handle?_set (s.store.giveUp h.owns) (lt_of_handle? hk) (some ⟨some i, true⟩)
  have hdeletable : s.store.deletable? h.owns ≠ some i :=
    fun he => hne (RecordStore.deletable?_eq_some_iff.1 he).1
  rw [step_hold_eq hk hlive hr]
  refine ⟨(hset k).trans (if_pos rfl), ?_, hversion, fun j x hj hx => ?_⟩
  · exact (RecordStore.letGo_giveUp hlive).records.live_of_ne hdeletable hr
  · exact hsole j x hj (((hset j).trans (if_neg hj)).symm.trans hx)

/-- Main result: a handle that did not own a record keeps it alive when it comes to own it. No
descriptor of the record is closed, but for those that the record let go of held as well; the record
stays whatever others do; and when the handle is dropped, it is closed and deleted once. -/
theorem adopted_kept (hk : s.handle? k = some h)
    (hlive : ∀ o ∈ h.owns, (s.store.record? o).isSome) (hr : s.store.record? i = some r)
    (hversion : r.version = HandleRecord.stamp)
    (hsole : ∀ j x, j ≠ k → s.handle? j = some x → x.owns ≠ some i) (hne : h.owns ≠ some i) :
    let s' := (s.step (.hold k (some i) true)).1
    s'.handle? k = some ⟨some i, true⟩ ∧ s'.store.record? i = some r ∧
    (∀ fd ∈ r.fds, s.store.table.isOpen fd = true → (s'.store.table.isOpen fd = true ↔
      ¬ ∃ o r', h.owns = some o ∧ s.store.record? o = some r' ∧ fd ∈ r'.fds)) ∧
    ∀ steps : List HandleStep, (∀ step ∈ steps, step.Spares k i) →
      let later := s'.run steps
      later.handle? k = some ⟨some i, true⟩ ∧
      (later.step (.drop k)).2 = .done ∧ (later.step (.drop k)).1.handle? k = none ∧
      later.store.Released (later.step (.drop k)).1.store i (r.after i steps) := by
  intro s'
  have hkeeps : s'.Keeps k i r := keeps_hold hk hlive hr hversion hsole hne
  have hstore : s'.store = s.store.giveUp h.owns := by
    simp only [s', step_hold_eq hk hlive hr]
  refine ⟨hkeeps.handle, hkeeps.record, fun fd _ ho => ?_, fun steps hsteps => ?_⟩
  · rw [hstore, (RecordStore.letGo_giveUp hlive).isOpen_iff, ho]
    simp
  · have hlater := hkeeps.run hsteps
    exact ⟨hlater.handle, hlater.step_drop⟩

/-- A handle takes over a record that another handle borrows, and gives up its own for it. The other
handle is copied, which opens 3 again, and dropped; that does not touch the record. -/
theorem adopted_kept_lent :
    let s : HandleSession :=
      ⟨⟨.withFirst 5 8, ⟨[⟨⟨12, 1, 0, [3]⟩, 0⟩, ⟨⟨12, 1, 1, [4, 7]⟩, 0⟩]⟩⟩,
        [some ⟨some 0, true⟩, some ⟨some 1, false⟩]⟩
    let s' := (s.step (.hold 0 (some 1) true)).1
    let later := s'.run [.duplicate 1, .drop 1]
    s'.store.table.isOpen 3 = false ∧ s'.store.table.isOpen 4 = true ∧
    later.store.table.isOpen 3 = true ∧
    later.store.Released (later.step (.drop 0)).1.store 1 ⟨12, 1, 1, [4, 7]⟩ := by
  intro s s' later
  have hsole : ∀ j x, j ≠ 0 → s.handle? j = some x → x.owns ≠ some 1 := by
    intro j x hj hx
    match j with
    | 1 =>
      obtain rfl := Option.some.inj hx
      decide
    | _ + 2 => simp [s, handle?] at hx
  obtain ⟨-, -, hopen, hlater⟩ := adopted_kept (s := s) (k := 0) (i := 1)
    (h := ⟨some 0, true⟩) (r := ⟨12, 1, 1, [4, 7]⟩) rfl (by decide) rfl rfl hsole (by decide)
  obtain ⟨-, -, -, hreleased⟩ := hlater [.duplicate 1, .drop 1] (by decide)
  refine ⟨by decide, (hopen 4 (by decide) (by decide)).2 ?_, by decide, hreleased⟩
  rintro ⟨o, r', ho, hr', hfd⟩
  obtain rfl := Option.some.inj ho
  obtain rfl := Option.some.inj hr'
  simp [HandleRecord.fds] at hfd

/-- Two ways to lose what a handle is handed. The record that it gives up for record 0 holds the
same descriptor, which is closed; and when it is handed the record that it owns, that is gone. -/
theorem exists_adopted_closed :
    let shared := initial.run [.openDescriptor, .create 1 0, .setFds 0 0 [3], .create 1 0,
      .setFds 1 0 [3], .new, .hold 0 (some 1) true]
    let owned := initial.run
      [.openDescriptor, .create 1 0, .setFds 0 0 [3], .new, .hold 0 (some 0) true]
    let after (s : HandleSession) := (s.step (.hold 0 (some 0) true)).1
    (shared.handles = [some ⟨some 1, true⟩] ∧
      shared.store.record? 0 = some ⟨12, 1, 0, [3]⟩ ∧
      shared.store.record? 1 = some ⟨12, 1, 0, [3]⟩ ∧ shared.store.table.isOpen 3 = true ∧
      (after shared).handle? 0 = some ⟨some 0, true⟩ ∧
      (after shared).store.record? 0 = some ⟨12, 1, 0, [3]⟩ ∧
      (after shared).store.table.isOpen 3 = false) ∧
    owned.handles = [some ⟨some 0, true⟩] ∧ owned.store.record? 0 = some ⟨12, 1, 0, [3]⟩ ∧
      (after owned).handle? 0 = some ⟨some 0, true⟩ ∧ (after owned).store.record? 0 = none := by
  decide

end HandleSession

end HalLink
