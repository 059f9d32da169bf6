import HalLink.Proofs.Handle.LettingGo

/-!
The few ways in which a step acts on a session, whatever state that is in: it may change the store,
write to one record, add a handle, move one, or put another in its place. So a record keeps its
words unless the step writes to it or gives it up, and only a handle that is handed a record comes
to own one that was there before.
-/

set_option autoImplicit false

namespace HalLink

namespace HandleStep

def written? : HandleStep → Option Nat
  | .setFds i _ _ | .setInts i _ _ | .setVersion i _ => some i
  | _ => none

def write (r : HandleRecord) : HandleStep → HandleRecord
  | .setFds _ first values => (r.setFds? first values).getD r
  | .setInts _ first values => (r.setInts? first values).getD r
  | .setVersion _ version => { r with version }
  | _ => r

def target? : HandleStep → Option Nat
  | .borrow k _ | .hold k _ _ | .take k | .assignFrom k _ | .drop k => some k
  | _ => none

end HandleStep

namespace HandleSession

variable {s : HandleSession} {step : HandleStep} {i j k : Nat} {r : HandleRecord} {h : Handle}
  {after : HandleSession × HandleResult}

section

variable {P : HandleSession × HandleResult → Prop}

theorem withRecord_elim (hs : ∀ answer, P (s, answer)) (i : Nat)
    {operation : HandleRecord → HandleSession × HandleResult}
    (h : ∀ r, s.store.record? i = some r → P (operation r)) : P (s.withRecord i operation) := by
  unfold withRecord
  split
  · next r hr => exact h r hr
  · exact hs _

theorem withHandle_elim (hs : ∀ answer, P (s, answer)) (k : Nat)
    {operation : Handle → HandleSession × HandleResult}
    (h : ∀ x, s.handle? k = some x → P (operation x)) : P (s.withHandle k operation) := by
  unfold withHandle
  split
  · next x hx => exact h x hx
  · exact hs _

theorem withPointer_elim (hs : ∀ answer, P (s, answer)) (record : Option Nat)
    {operation : HandleSession × HandleResult}
    (h : (∀ i ∈ record, (s.store.record? i).isSome) → P operation) :
    P (s.withPointer record operation) := by
  cases record with
  | none => exact h (by simp)
  | some i =>
    refine withRecord_elim hs i fun r hr => h fun j hj => ?_
    obtain rfl := Option.mem_some.1 hj
    exact Option.isSome_of_eq_some hr

theorem withReleasable_elim (hs : ∀ answer, P (s, answer)) (x : Handle)
    {operation : HandleSession × HandleResult}
    (h : (∀ i ∈ x.owns, (s.store.record? i).isSome) → P operation) :
    P (s.withReleasable x operation) := by
  unfold withReleasable
  split
  · next howned => exact withPointer_elim hs x.record (by simpa [Handle.owns, howned] using h)
  · next howned => exact h (by simp [Handle.owns, howned])

end

def givenUp? (s : HandleSession) : HandleStep → Option Nat
  | .deleteRecord record => record
  | .borrow k _ | .hold k _ _ | .assignFrom k _ | .drop k => s.owned? k
  | _ => none

inductive Effect (s : HandleSession) (step : HandleStep) : HandleSession × HandleResult → Prop where
  | stored {store : RecordStore} {given : Option Nat} {answer : HandleResult} :
      Arena.Change s.store.records store.records given → (∀ i ∈ given, s.givenUp? step = some i) →
      Effect s step ({ s with store }, answer)
  | written {i : Nat} {f : HandleRecord → HandleRecord} {answer : HandleResult} :
      step.written? = some i → Effect s step (s.update i f, answer)
  | added {store : RecordStore} {h : Handle} {answer : HandleResult} :
      Arena.Change s.store.records store.records none →
      (∀ i ∈ h.owns, s.store.record? i = none) → Effect s step (s.addHandle store h, answer)
  | moved {k : Nat} {h : Handle} {answer : HandleResult} :
      s.handle? k = some h → step.target? = some k →
      Effect s step ((s.putHandle k (s.store, .null)).addHandle s.store h, answer)
  | put {k : Nat} {store : RecordStore} {given : Option Nat} {h? : Option Handle}
      {answer : HandleResult} :
      Arena.Change s.store.records store.records given → (∀ i ∈ given, s.givenUp? step = some i) →
      (s.handle? k).isSome → step.target? = some k →
      (∀ h ∈ h?, ∀ i ∈ h.owns, step = .hold k (some i) true ∨ s.store.record? i = none) →
      Effect s step (⟨store, s.handles.set k h?⟩, answer)

theorem Effect.nothing {answer : HandleResult} : Effect s step (s, answer) :=
  .stored (.refl s.store.records) (by simp)

theorem Effect.withRecord (i : Nat) {operation : HandleRecord → HandleSession × HandleResult}
    (h : ∀ r, s.store.record? i = some r → Effect s step (operation r)) :
    Effect s step (s.withRecord i operation) := withRecord_elim (fun _ => .nothing) i h

theorem Effect.withHandle (k : Nat) {operation : Handle → HandleSession × HandleResult}
    (h : ∀ x, s.handle? k = some x → Effect s step (operation x)) :
    Effect s step (s.withHandle k operation) := withHandle_elim (fun _ => .nothing) k h

theorem Effect.withPointer (record : Option Nat) {operation : HandleSession × HandleResult}
    (h : (∀ i ∈ record, (s.store.record? i).isSome) → Effect s step operation) :
    Effect s step (s.withPointer record operation) := withPointer_elim (fun _ => .nothing) record h

theorem Effect.withReleasable (x : Handle) {operation : HandleSession × HandleResult}
    (h : (∀ i ∈ x.owns, (s.store.record? i).isSome) → Effect s step operation) :
    Effect s step (s.withReleasable x operation) := withReleasable_elim (fun _ => .nothing) x h

theorem Effect.ite {refusal : Prop} [Decidable refusal] {answer : HandleResult}
    {operation : HandleSession × HandleResult} (h : Effect s step operation) :
    Effect s step (if refusal then (s, answer) else operation) := by
  split
  · exact .nothing
  · exact h

theorem Effect.of_giveUp {store : RecordStore} {h? : Option Handle} {answer : HandleResult}
    (hk : s.handle? k = some h) (ht : step.target? = some k) (hg : s.givenUp? step = s.owned? k)
    (hlive : ∀ i ∈ h.owns, (s.store.record? i).isSome)
    (hchange : Arena.Change s.store.records store.records none)
    (hnew : ∀ new ∈ h?, ∀ i ∈ new.owns, step = .hold k (some i) true ∨ s.store.record? i = none) :
    Effect s step (⟨store.giveUp h.owns, s.handles.set k h?⟩, answer) := by
  have hlive' : ∀ i ∈ h.owns, (store.record? i).isSome :=
    fun i hi => hchange.isSome_of_ne (by simp) (hlive i hi)
  refine .put (hchange.trans_left (RecordStore.letGo_giveUp hlive').records) (fun i hi => ?_)
    (Option.isSome_of_eq_some hk) ht hnew
  rw [hg, owned?, hk]
  exact (RecordStore.deletable?_eq_some_iff.1 hi).1

theorem effect_create (s : HandleSession) (fds ints : Int) :
    Effect s (.create fds ints) (s.step (.create fds ints)) := by
  simp only [HandleSession.step, RecordStore.create]
  cases HandleRecord.zeroed? fds ints with
  | none => exact .nothing
  | some r => exact .stored (.alloc s.store.records r) (by simp)

theorem effect_delete (hr : s.store.record? i = some r) {answer : HandleResult} :
    Effect s (.deleteRecord (some i))
      ({ s with store := (s.store.delete (some i)).1 }, answer) := by
  by_cases hversion : r.version = HandleRecord.stamp
  · rw [RecordStore.delete_some hr hversion]
    exact .stored (.release hr) (fun j hj => hj)
  · have hkept : (s.store.delete (some i)).1 = s.store := by
      simp [RecordStore.delete, hr, hversion]
    rw [hkept]
    exact .nothing

theorem duplicate_new (hlive : ∀ i ∈ h.record, (s.store.record? i).isSome) :
    (∃ store copy, h.duplicate s.store = (store, .ok copy) ∧
      Arena.Change s.store.records store.records none ∧
      ∀ i ∈ copy.owns, s.store.record? i = none) ∨
    h.duplicate s.store = (s.store, .error .handleCopy) := by
  refine (Handle.duplicate_cases hlive).imp ?_ id
  rintro ⟨store, copy, he, hchange, -, hnew⟩
  exact ⟨store, copy, he, hchange.records,
    fun i hi => (hnew i (Handle.record_of_owns (Option.mem_def.1 hi))).2⟩

theorem effect_duplicate (hlive : ∀ i ∈ h.record, (s.store.record? i).isSome) :
    Effect s step (match h.duplicate s.store with
      | (store, .ok copy) => (s.addHandle store copy, .duplicated s.handles.length copy.record)
      | (store, .error fault) => ({ s with store }, .fatal fault)) := by
  rcases duplicate_new hlive with ⟨store, copy, he, hchange, hnew⟩ | he
  · rw [he]
    exact .added hchange hnew
  · rw [he]
    exact .nothing

theorem effect_assignFrom {model : Handle} (hk : s.handle? k = some h)
    (hreleasable : ∀ i ∈ h.owns, (s.store.record? i).isSome)
    (hlive : ∀ i ∈ model.record, (s.store.record? i).isSome) :
    Effect s (.assignFrom k j) (match h.assignFrom s.store model with
      | (store, .ok copy) => (s.putHandle k (store, copy), .record copy.record)
      | (store, .error fault) => ({ s with store }, .fatal fault)) := by
  unfold Handle.assignFrom
  rcases duplicate_new hlive with ⟨store, copy, he, hchange, hnew⟩ | he
  · rw [he]
    simp only [Handle.release_eq]
    refine .of_giveUp hk rfl rfl hreleasable hchange fun new hcopy i hi => ?_
    obtain rfl := Option.mem_some.1 hcopy
    exact .inr (hnew i hi)
  · rw [he]
    exact .nothing

theorem effect_hold {record : Option Nat} {own : Bool} {answer : HandleResult}
    (hk : s.handle? k = some h) (hreleasable : ∀ i ∈ h.owns, (s.store.record? i).isSome)
    (ht : step.target? = some k) (hg : s.givenUp? step = s.owned? k)
    (hown : ∀ i, own = true → record = some i → step = .hold k (some i) true) :
    Effect s step (s.putHandle k (h.hold s.store record own), answer) := by
  rw [Handle.hold, Handle.release_eq]
  refine .of_giveUp hk ht hg hreleasable (.refl s.store.records) fun new hnew i hi => ?_
  obtain rfl := Option.mem_some.1 hnew
  simp only [Handle.owns, Option.mem_def] at hi
  split at hi
  · next ho => exact .inl (hown i ho hi)
  · simp at hi

theorem effect_step (s : HandleSession) (step : HandleStep) : Effect s step (s.step step) := by
  cases step with
  | openDescriptor =>
    simp only [HandleSession.step]
    split
    · exact .stored (.refl s.store.records) (by simp)
    · exact .nothing
  | closeDescriptor fd => exact .stored (.refl s.store.records) (by simp)
  | create fds ints => exact effect_create s fds ints
  | setFds i first values =>
    refine .withRecord i fun r _ => ?_
    unfold write
    split
    · exact .written rfl
    · exact .nothing
  | setInts i first values =>
    refine .withRecord i fun r _ => ?_
    unfold write
    split
    · exact .written rfl
    · exact .nothing
  | setVersion i version => exact .withRecord i fun r _ => .written rfl
  | duplicateRecord record =>
    refine .withPointer record fun hlive => ?_
    cases record with
    | none => exact .nothing
    | some i =>
      obtain ⟨r, hr⟩ := Option.isSome_iff_exists.1 (hlive i rfl)
      exact .stored (RecordStore.Change.duplicate hr).records (by simp)
  | closeRecord record =>
    refine .withPointer record fun _ => ?_
    have hchange : Arena.Change s.store.records (s.store.close record).1.records none := by
      unfold RecordStore.close
      split <;> exact .refl s.store.records
    exact .stored hchange (by simp)
  | deleteRecord record =>
    refine .withPointer record fun hlive => ?_
    cases record with
    | none => exact .nothing
    | some i =>
      obtain ⟨r, hr⟩ := Option.isSome_iff_exists.1 (hlive i rfl)
      exact effect_delete hr
  | showRecord i => exact .withRecord i fun _ _ => .nothing
  | new => exact .added (.refl s.store.records) (by simp)
  | ofRecord record =>
    exact .withPointer record fun _ =>
      .added (.refl s.store.records) (by simp [Handle.ofRecord, Handle.owns])
  | borrow k record =>
    exact .withPointer record fun _ => .withHandle k fun h hk => .withReleasable h fun hlive =>
      effect_hold hk hlive rfl rfl (by simp)
  | hold k record own =>
    refine .withPointer record fun _ => .withHandle k fun h hk => .withReleasable h fun hlive =>
      effect_hold hk hlive rfl rfl fun i ho hi => ?_
    rw [ho, hi]
  | take k => exact .withHandle k fun h hk => .moved hk rfl
  | duplicate k =>
    exact .withHandle k fun h _ => .withPointer h.record fun hlive => effect_duplicate hlive
  | assignFrom k other =>
    exact .withHandle other fun model _ => .withPointer model.record fun hlive =>
      .withHandle k fun h hk => .withReleasable h fun hreleasable =>
      .ite (effect_assignFrom hk hreleasable hlive)
  | drop k =>
    refine .withHandle k fun h hk => .withReleasable h fun hlive => ?_
    rw [Handle.release_eq]
    exact .of_giveUp hk rfl rfl hlive (.refl s.store.records) (by simp)
  | showHandle k => exact .withHandle k fun h _ => .withPointer h.record fun _ => .nothing

theorem record?_update (s : HandleSession) (j : Nat) (f : HandleRecord → HandleRecord) (i : Nat) :
    (s.update j f).store.record? i =
      if i = j then (s.store.record? i).map f else s.store.record? i :=
  Arena.live?_update s.store.records j f i

theorem Effect.record? (he : Effect s step after) (hr : s.store.record? i = some r)
    (hwritten : step.written? ≠ some i) (hgiven : s.givenUp? step ≠ some i) :
    after.1.store.record? i = some r := by
  cases he with
  | stored hchange hg => exact hchange.live_of_ne (fun he => hgiven (hg i he)) hr
  | @written j f _ hj =>
    have hne : i ≠ j := fun he => hwritten (he ▸ hj)
    rw [record?_update, if_neg hne, hr]
  | added hchange _ => exact hchange.live_of_none hr
  | moved _ _ => exact hr
  | put hchange hg _ _ _ => exact hchange.live_of_ne (fun he => hgiven (hg i he)) hr

theorem record?_step_written (hr : s.store.record? i = some r) (hwritten : step.written? = some i) :
    (s.step step).1.store.record? i = some (step.write r) := by
  have hkept : ∀ written : Option HandleRecord, ∀ slots,
      (s.write i slots written).1.store.record? i = some (written.getD r) := by
    intro written slots
    cases written with
    | none => exact hr
    | some r' => simp [HandleSession.write, record?_update, hr]
  cases step with
  | setFds j first values =>
    obtain rfl := Option.some.inj hwritten
    simp only [HandleSession.step, withRecord, hr]
    exact hkept _ _
  | setInts j first values =>
    obtain rfl := Option.some.inj hwritten
    simp only [HandleSession.step, withRecord, hr]
    exact hkept _ _
  | setVersion j version =>
    obtain rfl := Option.some.inj hwritten
    simp [HandleSession.step, withRecord, hr, record?_update, HandleStep.write]
  | _ => cases hwritten

theorem Effect.handle? (he : Effect s step after) (hk : s.handle? k = some h)
    (ht : step.target? ≠ some k) : after.1.handle? k = some h := by
  have hlt := lt_of_handle? hk
  cases he with
  | stored _ _ => exact hk
  | written _ => exact hk
  | added _ _ =>
    rw [handle?_addHandle, if_neg (Nat.ne_of_lt hlt)]
    exact hk
  | @moved j _ _ hj htarget =>
    have hne : k ≠ j := fun he => ht (he ▸ htarget)
    have hlast : k ≠ (s.putHandle j (s.store, .null)).handles.length := by
      simp only [putHandle, List.length_set]
      exact Nat.ne_of_lt hlt
    rw [handle?_addHandle, if_neg hlast]
    exact (handle?_set s.store (lt_of_handle? hj) (some .null) k).trans ((if_neg hne).trans hk)
  | @put j store _ h? _ _ _ hj htarget _ =>
    have hne : k ≠ j := fun he => ht (he ▸ htarget)
    obtain ⟨x, hx⟩ := Option.isSome_iff_exists.1 hj
    exact (handle?_set store (lt_of_handle? hx) h? k).trans ((if_neg hne).trans hk)

/-- A handle that owns a record after a step owned it before, possibly in another place, unless the
record is new or was handed over. -/
theorem Effect.owner (he : Effect s step after) (hj : after.1.handle? j = some h)
    (ho : h.owns = some i) :
    (∃ k, s.handle? k = some h ∧ (k = j ∨ step.target? = some k)) ∨
    step = .hold j (some i) true ∨ s.store.record? i = none := by
  cases he with
  | stored _ _ => exact .inl ⟨j, hj, .inl rfl⟩
  | written _ => exact .inl ⟨j, hj, .inl rfl⟩
  | added _ hnew =>
    rw [handle?_addHandle] at hj
    split at hj
    · obtain rfl := Option.some.inj hj
      exact .inr (.inr (hnew i ho))
    · exact .inl ⟨j, hj, .inl rfl⟩
  | @moved k x _ hk htarget =>
    rw [handle?_addHandle] at hj
    split at hj
    · obtain rfl := Option.some.inj hj
      exact .inl ⟨k, hk, .inr htarget⟩
    · have hset := handle?_set s.store (lt_of_handle? hk) (some .null) j
      rw [putHandle, hset] at hj
      split at hj
      · obtain rfl := Option.some.inj hj
        simp at ho
      · exact .inl ⟨j, hj, .inl rfl⟩
  | @put k store _ h? _ _ _ hk _ hnew =>
    obtain ⟨x, hx⟩ := Option.isSome_iff_exists.1 hk
    rw [handle?_set store (lt_of_handle? hx)] at hj
    split at hj
    · next he => exact .inr (he ▸ hnew h hj i ho)
    · exact .inl ⟨j, hj, .inl rfl⟩

end HandleSession

end HalLink
