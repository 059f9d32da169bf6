import HalLink.Proofs.Handle.Uses
import HalLink.Proofs.Numbering

set_option autoImplicit false

namespace HalLink

namespace Handle

variable {store : RecordStore} {h : Handle} {i : Nat}

theorem record_of_owns (ho : h.owns = some i) : h.record = some i := by
  simp only [owns] at ho
  split at ho
  · exact ho
  · simp at ho

@[simp] theorem owns_null : null.owns = none := rfl

theorem release_eq (store : RecordStore) (h : Handle) : h.release store = store.giveUp h.owns := by
  obtain ⟨record, owned⟩ := h
  cases owned with
  | false => rfl
  | true => cases record <;> rfl

theorem duplicate_cases (hlive : ∀ i ∈ h.record, (store.record? i).isSome) :
    (∃ store' copy, h.duplicate store = (store', .ok copy) ∧
      RecordStore.Change store store' none ∧
      (∀ hand, store.Sound hand → store'.Sound hand) ∧
      ∀ i ∈ copy.record, (store'.record? i).isSome ∧ store.record? i = none) ∨
    h.duplicate store = (store, .error .handleCopy) := by
  cases hrecord : h.record with
  | none =>
    refine .inl ⟨store, null, by simp [duplicate, hrecord], .refl store, fun _ hs => hs, ?_⟩
    simp [null]
  | some i =>
    obtain ⟨r, hr⟩ := Option.isSome_iff_exists.1 (hlive i hrecord)
    have hchange := RecordStore.Change.duplicate hr
    have hsound := fun hand (hs : store.Sound hand) => hs.duplicate hr
    rcases RecordStore.duplicate_cases hr with ⟨table, made, -, -, he⟩ | he
    · refine .inl ⟨(store.duplicate (some i)).1, ⟨some store.records.size, true⟩,
        by simp [duplicate, hrecord, he], hchange, hsound, ?_⟩
      intro j hj
      obtain rfl := Option.mem_some.1 hj
      refine ⟨?_, store.record?_size⟩
      rw [he, RecordStore.record?_add]
      simp
    · exact .inr (by simp [duplicate, hrecord, he])

end Handle

namespace HandleSession

variable {s s' : HandleSession} {hand hand' : List Int} {given : Option Nat} {i j k : Nat}
  {h : Handle}

theorem handle?_set (store : RecordStore) (hk : k < s.handles.length) (h? : Option Handle)
    (j : Nat) :
    handle? ⟨store, s.handles.set k h?⟩ j = if j = k then h? else s.handle? j :=
  slot_set hk h? j

theorem handle?_addHandle (s : HandleSession) (store : RecordStore) (h : Handle) (j : Nat) :
    (s.addHandle store h).handle? j = if j = s.handles.length then some h else s.handle? j :=
  slot_append s.handles h j

theorem handle?_length (s : HandleSession) : s.handle? s.handles.length = none :=
  slot_length s.handles

theorem lt_of_handle? (hh : s.handle? i = some h) : i < s.handles.length := lt_of_slot hh

theorem unowned_iff : s.Unowned i ↔ ∀ j h, s.handle? j = some h → h.owns ≠ some i := by
  constructor
  · intro hu j h hh
    exact hu j (lt_of_handle? hh) h hh
  · intro hu j _ h hh
    exact hu j h hh

theorem onlyThrough_iff {k? : Option Nat} :
    s.OnlyThrough k? i ↔ ∀ j h, s.handle? j = some h → h.record = some i → k? = some j := by
  constructor
  · intro hu j h hh
    exact hu j (lt_of_handle? hh) h hh
  · intro hu j _ h hh
    exact hu j h hh

structure Sound (s : HandleSession) (hand : List Int) : Prop where
  store : s.store.Sound hand
  refers : ∀ {j h i}, s.handle? j = some h → h.record = some i → (s.store.record? i).isSome
  owner_unique : ∀ {j k h h' i}, s.handle? j = some h → s.handle? k = some h' →
    h.owns = some i → h'.owns = some i → j = k

def Owned (s : HandleSession) (i : Nat) : Prop := ∃ j h, s.handle? j = some h ∧ h.owns = some i

structure Step (s s' : HandleSession) (hand' : List Int) (given : Option Nat) : Prop where
  sound : s'.Sound hand'
  change : RecordStore.Change s.store s'.store given
  owned : ∀ i, s.Owned i → s'.Owned i ∨ given = some i

theorem Sound.step_self (hs : s.Sound hand) : Step s s hand none where
  sound := hs
  change := .refl s.store
  owned _ ho := .inl ho

/-- Only handle `k` changes. No other handle refers to what is given up, and none owns what handle
`k` comes to own. -/
theorem Sound.put (hs : s.Sound hand) (hstore : s'.store.Sound hand')
    (hchange : RecordStore.Change s.store s'.store given)
    (hothers : ∀ j, j ≠ k → s'.handle? j = s.handle? j)
    (hgiven : ∀ i ∈ given, ∀ j h, j ≠ k → s.handle? j = some h → h.record ≠ some i)
    (hnew : ∀ h, s'.handle? k = some h →
      (∀ i ∈ h.record, (s'.store.record? i).isSome) ∧
      ∀ i ∈ h.owns, ∀ j h', j ≠ k → s.handle? j = some h' → h'.owns ≠ some i) :
    s'.Sound hand' where
  store := hstore
  refers {j h i} hh hi := by
    by_cases hj : j = k
    · subst hj
      exact (hnew h hh).1 i hi
    · rw [hothers j hj] at hh
      have hne : given ≠ some i := fun he => hgiven i he j h hj hh hi
      exact hchange.isSome_of_ne hne (hs.refers hh hi)
  owner_unique {j l h h' i} hj hl ho ho' := by
    by_cases hjk : j = k <;> by_cases hlk : l = k
    · exact hjk.trans hlk.symm
    · subst hjk
      rw [hothers l hlk] at hl
      exact absurd ho' ((hnew h hj).2 i ho l h' hlk hl)
    · subst hlk
      rw [hothers j hjk] at hj
      exact absurd ho ((hnew h' hl).2 i ho' j h hjk hj)
    · rw [hothers j hjk] at hj
      rw [hothers l hlk] at hl
      exact hs.owner_unique hj hl ho ho'

theorem owned_put (hothers : ∀ j, j ≠ k → s'.handle? j = s.handle? j)
    (hkeep : ∀ h i, s.handle? k = some h → h.owns = some i → given = some i) (i : Nat)
    (ho : s.Owned i) : s'.Owned i ∨ given = some i := by
  obtain ⟨j, h, hh, hi⟩ := ho
  by_cases hj : j = k
  · subst hj
    exact .inr (hkeep h i hh hi)
  · exact .inl ⟨j, h, (hothers j hj).trans hh, hi⟩

theorem Sound.step_store {store : RecordStore} (hs : s.Sound hand) (hstore : store.Sound hand')
    (hchange : RecordStore.Change s.store store given)
    (hgiven : ∀ i ∈ given, s.OnlyThrough none i) : Step s { s with store } hand' given where
  sound := hs.put (k := s.handles.length) hstore hchange (fun _ _ => rfl)
    (fun i hi j h _ hh hr => by simpa using onlyThrough_iff.1 (hgiven i hi) j h hh hr)
    (fun h hh => by simp [handle?] at hh)
  change := hchange
  owned _ ho := .inl ho

theorem Sound.step_addHandle {store : RecordStore} (hs : s.Sound hand) (hstore : store.Sound hand')
    (hchange : RecordStore.Change s.store store none)
    (hlive : ∀ i ∈ h.record, (store.record? i).isSome) (hunowned : ∀ i ∈ h.owns, s.Unowned i) :
    Step s (s.addHandle store h) hand' none where
  sound := by
    refine hs.put (k := s.handles.length) hstore hchange (fun j hj => ?_) (by simp) ?_
    · simp [handle?_addHandle, hj]
    · intro h' hh
      obtain rfl : h = h' := by simpa [handle?_addHandle] using hh
      exact ⟨hlive, fun i hi j h' _ hh => unowned_iff.1 (hunowned i hi) j h' hh⟩
  change := hchange
  owned i ho := by
    refine owned_put (k := s.handles.length) (fun j hj => ?_) (fun h' i hh => ?_) i ho
    · simp [handle?_addHandle, hj]
    · simp [handle?_length] at hh

theorem Sound.step_set {store : RecordStore} (hs : s.Sound hand) (hk : s.handle? k = some h)
    {h? : Option Handle} (hstore : store.Sound hand')
    (hchange : RecordStore.Change s.store store h.owns)
    (honly : ∀ i ∈ h.owns, s.OnlyThrough (some k) i)
    (hlive : ∀ new ∈ h?, ∀ i ∈ new.record, (store.record? i).isSome)
    (hunowned : ∀ new ∈ h?, ∀ i ∈ new.owns, s.Unowned i) :
    Step s ⟨store, s.handles.set k h?⟩ hand' h.owns where
  sound := by
    refine hs.put (k := k) hstore hchange (fun j hj => ?_) (fun i hi j h' hj hh hr => ?_) ?_
    · simp [handle?_set store (lt_of_handle? hk), hj]
    · have he := onlyThrough_iff.1 (honly i hi) j h' hh hr
      exact hj (Option.some.inj he).symm
    · intro new hnew
      have hmem : h? = some new := by
        simpa [handle?_set store (lt_of_handle? hk)] using hnew
      exact ⟨hlive new hmem, fun i hi j h' _ hh => unowned_iff.1 (hunowned new hmem i hi) j h' hh⟩
  change := hchange
  owned i ho := by
    refine owned_put (k := k) (fun j hj => ?_) (fun h' i hh hi => ?_) i ho
    · simp [handle?_set store (lt_of_handle? hk), hj]
    · rw [hk] at hh
      exact Option.some.inj hh ▸ hi

theorem withPointer_of {record : Option Nat} (hp : s.isPointer record = true)
    (operation : HandleSession × HandleResult) : s.withPointer record operation = operation := by
  cases record with
  | none => rfl
  | some i =>
    obtain ⟨r, hr⟩ := Option.isSome_iff_exists.1 (by simpa [isPointer] using hp)
    simp [withPointer, withRecord, hr]

theorem withPointer_of_not {record : Option Nat} (hp : s.isPointer record = false)
    (operation : HandleSession × HandleResult) : (s.withPointer record operation).1 = s := by
  cases record with
  | none => simp [isPointer] at hp
  | some i =>
    have hr : s.store.record? i = none := by simpa [isPointer] using hp
    simp [withPointer, withRecord, hr]

theorem withHandle_of (hh : s.handle? i = some h)
    (operation : Handle → HandleSession × HandleResult) :
    s.withHandle i operation = operation h := by simp [withHandle, hh]

theorem withHandle_of_none (hh : s.handle? i = none)
    (operation : Handle → HandleSession × HandleResult) : (s.withHandle i operation).1 = s := by
  simp [withHandle, hh]

theorem Sound.isPointer (hs : s.Sound hand) (hh : s.handle? i = some h) :
    s.isPointer h.record = true := by
  cases hr : h.record with
  | none => rfl
  | some r => simpa [HandleSession.isPointer] using hs.refers hh hr

theorem Sound.withReleasable (hs : s.Sound hand) (hh : s.handle? i = some h)
    (operation : HandleSession × HandleResult) : s.withReleasable h operation = operation := by
  simp [HandleSession.withReleasable, withPointer_of (hs.isPointer hh)]

theorem Sound.giveUp (hs : s.Sound hand) (hh : s.handle? i = some h) :
    (s.store.giveUp h.owns).Sound hand ∧
      RecordStore.Change s.store (s.store.giveUp h.owns) h.owns :=
  hs.store.giveUp? fun _ hi => hs.refers hh (Handle.record_of_owns hi)

theorem Sound.unowned_of_new (hs : s.Sound hand) (hi : s.store.record? i = none) : s.Unowned i :=
  unowned_iff.2 fun j h hh ho => by
    have hlive := hs.refers hh (Handle.record_of_owns ho)
    simp [hi] at hlive

theorem Sound.step_openDescriptor (hs : s.Sound hand) :
    Step s (s.perform .openDescriptor) (s.inHand hand .openDescriptor) none := by
  simp only [perform, HandleUse.steps, List.foldl_cons, List.foldl_nil, step, inHand]
  cases ho : s.store.table.openLowest with
  | none => exact hs.step_self
  | some opened =>
    obtain ⟨table, fd⟩ := opened
    have hopen := DescriptorTable.isOpen_openLowest ho
    have hstore : RecordStore.Sound { s.store with table } ([fd] ++ hand) := by
      refine hs.store.setTable (fun other => ?_) (fun other hmem => ?_)
      · by_cases he : other = fd <;> simp [hopen, he]
      · rw [List.mem_singleton.1 hmem]
        exact DescriptorTable.isOpen_of_openLowest ho
    exact hs.step_store hstore (.setTable fun other hother => by simp [hopen, hother]) (by simp)

theorem perform_create_of_none {fds ints : Int} (hz : HandleRecord.zeroed? fds ints = none)
    (values : List Int) : s.perform (.create fds ints values) = s := by
  simp [perform, HandleUse.steps, step, RecordStore.create, hz, withRecord, RecordStore.record?]

theorem perform_create {fds ints : Int} {r : HandleRecord} {values : List Int}
    (hz : HandleRecord.zeroed? fds ints = some r) (hlength : values.length = fds.toNat) :
    s.perform (.create fds ints values) =
      { s with store := (s.store.add (r.setWords 0 values)).1 } := by
  have hset := (HandleRecord.setFds?_zeroed hz hlength).1
  have hrecord : (s.store.add r).1.record? s.store.records.size = some r := by
    simp [RecordStore.record?_add]
  have hupdate := s.store.records.update_alloc r fun _ => r.setWords 0 values
  simp only [RecordStore.add] at hrecord
  simp [perform, HandleUse.steps, step, RecordStore.create, hz, withRecord, hrecord, hset, write,
    update, RecordStore.add, hupdate]

theorem Sound.step_create (hs : s.Sound hand) {fds ints : Int} {values : List Int}
    (hp : s.Permitted (.create fds ints values)) :
    Step s (s.perform (.create fds ints values)) (s.inHand hand (.create fds ints values))
      none := by
  simp only [inHand]
  cases hz : HandleRecord.zeroed? fds ints with
  | none =>
    rw [perform_create_of_none hz]
    exact hs.step_self
  | some r =>
    obtain ⟨hlength, hnodup, hvalues⟩ := hp.2 (by simp [hz])
    obtain ⟨-, hfds, hwf⟩ := HandleRecord.setFds?_zeroed hz hlength
    have hhand : ∀ fd ∈ (r.setWords 0 values).fds, fd ∈ hand := by
      rw [hfds]
      intro fd hfd
      obtain ⟨hopen, hfree⟩ := hvalues fd hfd
      refine ((hs.store.open_iff fd).1 hopen).resolve_right ?_
      intro ⟨i, r', hi, hmem⟩
      exact RecordStore.free_iff.1 hfree i r' hi hmem
    have hadd := hs.store.add hwf (by rwa [hfds]) hhand
    rw [hfds] at hadd
    rw [perform_create hz hlength]
    exact hs.step_store hadd (.add _ _) (by simp)

theorem Sound.step_duplicateRecord (hs : s.Sound hand) (record : Option Nat) :
    Step s (s.perform (.duplicateRecord record)) hand none := by
  simp only [perform, HandleUse.steps, List.foldl_cons, List.foldl_nil, step]
  cases hp : s.isPointer record with
  | false =>
    rw [withPointer_of_not hp]
    exact hs.step_self
  | true =>
    rw [withPointer_of hp]
    cases record with
    | none => exact hs.step_self
    | some i =>
      obtain ⟨r, hr⟩ := Option.isSome_iff_exists.1 (by simpa [HandleSession.isPointer] using hp)
      exact hs.step_store (hs.store.duplicate hr) (.duplicate hr) (by simp)

theorem perform_releaseRecord (s : HandleSession) (record : Option Nat) :
    s.perform (.releaseRecord record) =
      { s with store := s.store.giveUp (s.released? (.releaseRecord record)) } := by
  simp only [perform, HandleUse.steps, List.foldl_cons, List.foldl_nil, step, released?]
  cases record with
  | none => rfl
  | some i =>
    cases hr : s.store.record? i with
    | none => simp [withPointer, withRecord, hr, Option.filter]
    | some r =>
      have hclosed : (s.store.close (some i)).1.record? i = some r := by
        simp only [RecordStore.close, Option.bind_some, hr]
        exact hr
      simp [withPointer, withRecord, hr, hclosed, RecordStore.giveUp, Option.filter]

theorem Sound.step_releaseRecord (hs : s.Sound hand) {record : Option Nat}
    (hp : s.Permitted (.releaseRecord record)) :
    Step s (s.perform (.releaseRecord record)) hand (s.released? (.releaseRecord record)) := by
  have hlive : ∀ i ∈ s.released? (.releaseRecord record), (s.store.record? i).isSome := by
    intro i hi
    simp only [released?, Option.mem_def, Option.filter_eq_some_iff] at hi
    exact hi.2
  obtain ⟨hstore, hchange⟩ := hs.store.giveUp? hlive
  rw [perform_releaseRecord]
  exact hs.step_store hstore hchange fun i hi => (hp.1 i hi).1

theorem Sound.step_new (hs : s.Sound hand) : Step s (s.perform .new) hand none :=
  hs.step_addHandle hs.store (.refl s.store) (by simp [Handle.null]) (by simp)

theorem Sound.step_ofRecord (hs : s.Sound hand) (record : Option Nat) :
    Step s (s.perform (.ofRecord record)) hand none := by
  simp only [perform, HandleUse.steps, List.foldl_cons, List.foldl_nil, step]
  cases hp : s.isPointer record with
  | false =>
    rw [withPointer_of_not hp]
    exact hs.step_self
  | true =>
    rw [withPointer_of hp]
    have hlive : ∀ i ∈ record, (s.store.record? i).isSome := by
      intro i hi
      obtain rfl := Option.mem_def.1 hi
      simpa [HandleSession.isPointer] using hp
    exact hs.step_addHandle hs.store (.refl s.store) hlive (by simp [Handle.ofRecord, Handle.owns])

theorem Sound.step_hold (hs : s.Sound hand) {record : Option Nat} {own : Bool}
    (hp : s.Permitted (.hold k record own)) :
    Step s (s.perform (.hold k record own)) hand (s.released? (.hold k record own)) := by
  obtain ⟨hrelease, hunowned⟩ := hp
  simp only [released?] at hrelease
  simp only [perform, HandleUse.steps, List.foldl_cons, List.foldl_nil, step, released?]
  cases hpointer : s.isPointer record with
  | false =>
    rw [withPointer_of_not hpointer]
    exact hs.step_self
  | true =>
    rw [withPointer_of hpointer]
    cases hk : s.handle? k with
    | none =>
      rw [withHandle_of_none hk]
      simpa [owned?, hk] using hs.step_self
    | some h =>
      have howned : s.owned? k = h.owns := by simp [owned?, hk]
      rw [hpointer, if_pos rfl, howned] at hrelease
      rw [withHandle_of hk, hs.withReleasable hk, howned]
      obtain ⟨hstore, hchange⟩ := hs.giveUp hk
      rw [Handle.hold, Handle.release_eq]
      refine hs.step_set hk hstore hchange (fun i hi => (hrelease i hi).1) ?_ ?_
      · intro new hnew i hi
        obtain rfl := Option.mem_some.1 hnew
        obtain rfl := Option.mem_def.1 hi
        refine hchange.isSome_of_ne (fun he => (hrelease i he).2 rfl) ?_
        simpa [HandleSession.isPointer] using hpointer
      · intro new hnew i hi
        obtain rfl := Option.mem_some.1 hnew
        simp only [Handle.owns, Option.mem_def] at hi
        split at hi
        · next ho => exact hunowned ho i hi
        · simp at hi

theorem Sound.step_borrow (hs : s.Sound hand) {record : Option Nat}
    (hp : s.Permitted (.borrow k record)) :
    Step s (s.perform (.borrow k record)) hand (s.released? (.borrow k record)) := by
  have hp' : s.Permitted (.hold k record false) := ⟨hp.1, by simp⟩
  exact hs.step_hold hp'

/-- Moving a handle moves its ownership, so what it owned has one owner before and after. -/
theorem Sound.step_moved (hs : s.Sound hand) (hk : s.handle? k = some h) :
    Step s ((s.putHandle k (s.store, .null)).addHandle s.store h) hand none := by
  have hleft : ∀ j, (s.putHandle k (s.store, .null)).handle? j =
      if j = k then some .null else s.handle? j :=
    handle?_set s.store (lt_of_handle? hk) (some .null)
  have hsound : (s.putHandle k (s.store, .null)).Sound hand := by
    refine hs.put (k := k) hs.store (.refl s.store) (fun j hj => ?_) (by simp) fun h' hh => ?_
    · simp [hleft, hj]
    · obtain rfl : Handle.null = h' := by simpa [hleft] using hh
      simp [Handle.null, Handle.owns]
  have hunowned : ∀ i ∈ h.owns, (s.putHandle k (s.store, .null)).Unowned i := by
    refine fun i hi => unowned_iff.2 fun j h' hh ho => ?_
    rw [hleft] at hh
    split at hh
    · obtain rfl := Option.some.inj hh
      simp at ho
    · next hj => exact hj (hs.owner_unique hh hk ho hi)
  refine ⟨(hsound.step_addHandle hs.store (.refl s.store) (fun i hi => hs.refers hk hi)
    hunowned).sound, .refl s.store, fun i ho => .inl ?_⟩
  obtain ⟨j, h', hh, hi⟩ := ho
  by_cases hj : j = k
  · subst hj
    rw [hk] at hh
    obtain rfl := Option.some.inj hh
    exact ⟨(s.putHandle j (s.store, .null)).handles.length, h, by simp [handle?_addHandle], hi⟩
  · have hne : j ≠ (s.putHandle k (s.store, .null)).handles.length := by
      have hlt := lt_of_handle? hh
      simp [putHandle]
      omega
    exact ⟨j, h', by simp [handle?_addHandle, hne, hleft, hj, hh], hi⟩

theorem Sound.step_take (hs : s.Sound hand) (k : Nat) :
    Step s (s.perform (.take k)) hand none := by
  simp only [perform, HandleUse.steps, List.foldl_cons, List.foldl_nil, step]
  cases hk : s.handle? k with
  | none =>
    rw [withHandle_of_none hk]
    exact hs.step_self
  | some h =>
    rw [withHandle_of hk]
    exact hs.step_moved hk

theorem Sound.step_duplicate (hs : s.Sound hand) (k : Nat) :
    Step s (s.perform (.duplicate k)) hand none := by
  simp only [perform, HandleUse.steps, List.foldl_cons, List.foldl_nil, step]
  cases hk : s.handle? k with
  | none =>
    rw [withHandle_of_none hk]
    exact hs.step_self
  | some h =>
    rw [withHandle_of hk, withPointer_of (hs.isPointer hk)]
    rcases Handle.duplicate_cases fun i hi => hs.refers hk hi with
      ⟨store, copy, he, hchange, hsound, hnew⟩ | he
    · rw [he]
      exact hs.step_addHandle (hsound hand hs.store) hchange (fun i hi => (hnew i hi).1)
        fun i hi => hs.unowned_of_new (hnew i (Handle.record_of_owns hi)).2
    · rw [he]
      exact hs.step_self

/-- The copy is made first, so the record that is let go of is none that the copy refers to. -/
theorem Sound.step_assigned (hs : s.Sound hand) {store : RecordStore} {copy : Handle}
    (hk : s.handle? k = some h) (hchange : RecordStore.Change s.store store none)
    (hstore : store.Sound hand)
    (hnew : ∀ i ∈ copy.record, (store.record? i).isSome ∧ s.store.record? i = none)
    (honly : ∀ i ∈ h.owns, s.OnlyThrough (some k) i) :
    Step s (s.putHandle k (store.giveUp h.owns, copy)) hand h.owns := by
  have hlive : ∀ i ∈ h.owns, (s.store.record? i).isSome :=
    fun i hi => hs.refers hk (Handle.record_of_owns hi)
  have hlive' : ∀ i ∈ h.owns, (store.record? i).isSome := by
    intro i hi
    exact hchange.isSome_of_ne (by simp) (hlive i hi)
  obtain ⟨hgiven, hchange'⟩ := hstore.giveUp? hlive'
  refine hs.step_set hk hgiven (hchange.trans hchange' hlive) honly ?_ ?_
  · intro new hcopy i hi
    obtain rfl := Option.mem_some.1 hcopy
    obtain ⟨hi', hnone⟩ := hnew i hi
    refine hchange'.isSome_of_ne (fun he => ?_) hi'
    have hsome := hlive i he
    simp [hnone] at hsome
  · intro new hcopy i hi
    obtain rfl := Option.mem_some.1 hcopy
    exact hs.unowned_of_new (hnew i (Handle.record_of_owns hi)).2

theorem Sound.step_assignFrom (hs : s.Sound hand) {other : Nat}
    (hp : s.Permitted (.assignFrom k other)) :
    Step s (s.perform (.assignFrom k other)) hand (s.released? (.assignFrom k other)) := by
  have hrelease := hp.1
  simp only [released?] at hrelease
  simp only [perform, HandleUse.steps, List.foldl_cons, List.foldl_nil, step, released?]
  cases hother : s.handle? other with
  | none =>
    rw [withHandle_of_none hother]
    cases hk : s.handle? k <;> simpa [copies, hk, hother] using hs.step_self
  | some model =>
    have hpointer := hs.isPointer hother
    rw [withHandle_of hother, withPointer_of hpointer]
    cases hk : s.handle? k with
    | none =>
      rw [withHandle_of_none hk]
      simpa [copies, hk] using hs.step_self
    | some h =>
      have howned : s.owned? k = h.owns := by simp [owned?, hk]
      have hcopies : s.copies k other = (!h.lendsTo model && (model.duplicate s.store).2.isOk) := by
        simp [copies, hk, hother, hpointer]
      rw [withHandle_of hk, hs.withReleasable hk]
      by_cases hlends : h.lendsTo model = true
      · rw [if_pos hlends, hcopies, hlends]
        exact hs.step_self
      rw [if_neg hlends]
      rw [Bool.not_eq_true] at hlends
      rw [hlends] at hcopies
      rcases Handle.duplicate_cases fun i hi => hs.refers hother hi with
        ⟨store, copy, he, hchange, hsound, hnew⟩ | he
      · rw [he] at hcopies
        rw [show s.copies k other = true from hcopies, if_pos rfl, howned] at hrelease ⊢
        simp only [Handle.assignFrom, he, Handle.release_eq]
        exact hs.step_assigned hk hchange (hsound hand hs.store) hnew fun i hi => (hrelease i hi).1
      · rw [he] at hcopies
        rw [show s.copies k other = false from hcopies]
        simp only [Handle.assignFrom, he]
        exact hs.step_self

theorem Sound.step_drop (hs : s.Sound hand) (hp : s.Permitted (.drop k)) :
    Step s (s.perform (.drop k)) hand (s.released? (.drop k)) := by
  have hrelease := hp.1
  simp only [released?] at hrelease
  simp only [perform, HandleUse.steps, List.foldl_cons, List.foldl_nil, step, released?]
  cases hk : s.handle? k with
  | none =>
    rw [withHandle_of_none hk]
    simpa [owned?, hk] using hs.step_self
  | some h =>
    have howned : s.owned? k = h.owns := by simp [owned?, hk]
    rw [howned] at hrelease
    rw [withHandle_of hk, hs.withReleasable hk, howned, Handle.release_eq]
    obtain ⟨hstore, hchange⟩ := hs.giveUp hk
    exact hs.step_set hk hstore hchange (fun i hi => (hrelease i hi).1) (by simp) (by simp)

theorem Sound.step_perform (hs : s.Sound hand) {use : HandleUse} (hp : s.Permitted use) :
    Step s (s.perform use) (s.inHand hand use) (s.released? use) := by
  cases use with
  | openDescriptor => exact hs.step_openDescriptor
  | create fds ints values => exact hs.step_create hp
  | duplicateRecord record => exact hs.step_duplicateRecord record
  | releaseRecord record => exact hs.step_releaseRecord hp
  | new => exact hs.step_new
  | ofRecord record => exact hs.step_ofRecord record
  | borrow k record => exact hs.step_borrow hp
  | hold k record own => exact hs.step_hold hp
  | take k => exact hs.step_take k
  | duplicate k => exact hs.step_duplicate k
  | assignFrom k other => exact hs.step_assignFrom hp
  | drop k => exact hs.step_drop hp

theorem Sound.performAll (hs : s.Sound hand) {uses : List HandleUse} (hp : s.PermittedRun uses) :
    (s.performAll uses).Sound (s.inHandAfter hand uses) := by
  induction uses generalizing s hand with
  | nil => exact hs
  | cons use rest ih => exact ih (hs.step_perform hp.1).sound hp.2

theorem permittedRun_append {before after : List HandleUse} :
    s.PermittedRun (before ++ after) ↔
      s.PermittedRun before ∧ (s.performAll before).PermittedRun after := by
  induction before generalizing s with
  | nil => simp [PermittedRun, HandleSession.performAll]
  | cons use rest ih =>
    rw [List.cons_append, PermittedRun, PermittedRun, ih, and_assoc]
    rfl

theorem Sound.releases_le_performAll (hs : s.Sound hand) {uses : List HandleUse}
    (hp : s.PermittedRun uses) (i : Nat) :
    s.store.records.releases i ≤ (s.performAll uses).store.records.releases i := by
  induction uses generalizing s hand with
  | nil => exact Nat.le_refl _
  | cons use rest ih =>
    have hstep := hs.step_perform hp.1
    refine Nat.le_trans ?_ (ih hstep.sound hp.2)
    rw [hstep.change.records.releases i]
    exact Nat.le_add_right _ _

theorem Sound.owned_performAll (hs : s.Sound hand) {uses : List HandleUse}
    (hp : s.PermittedRun uses) (ho : s.Owned i) :
    (s.performAll uses).Owned i ∨ (s.performAll uses).store.records.releases i = 1 := by
  induction uses generalizing s hand with
  | nil => exact .inl ho
  | cons use rest ih =>
    have hstep := hs.step_perform hp.1
    rcases hstep.owned i ho with ho' | hgiven
    · exact ih hstep.sound hp.2 ho'
    · have hreleased := hstep.change.records.releases i
      have hrest := hstep.sound.releases_le_performAll hp.2 i
      have hmost := (hstep.sound.performAll hp.2).store.releases_le i
      rw [if_pos hgiven] at hreleased
      refine .inr ?_
      simp only [HandleSession.performAll, List.foldl_cons] at hrest hmost ⊢
      omega

theorem sound_start (table : DescriptorTable) :
    (start table).Sound (table.openNumbers.map Int.ofNat) := by
  have hnone : ∀ i, (start table).store.record? i = none := Arena.live?_empty
  refine ⟨⟨?_, ?_, ?_, fun fd => ?_, fun fd _ => ?_, ?_⟩, ?_, ?_⟩
  · simp [hnone]
  · simp [hnone]
  · simp [hnone]
  · simp only [hnone, reduceCtorEq, false_and, exists_false, or_false]
    exact DescriptorTable.mem_openNumbers_iff.symm
  · exact RecordStore.free_iff.2 fun i r hr => by simp [hnone] at hr
  · simp [start, Arena.releases, Arena.empty]
  · simp [start, handle?]
  · simp [start, handle?]

/-- Main result: over every run that keeps the contracts, handles, records and descriptors stay
sound. Each use closes and deletes the record that it releases and nothing else; what was owned once
has an owner until then. When no handle is left and no record without an owner, the open descriptors
are those in the hands of the caller, and every record was deleted once. -/
theorem ownership_of_run {table : DescriptorTable} {uses : List HandleUse}
    (hp : (start table).PermittedRun uses) :
    let s := (start table).performAll uses
    let hand := (start table).inHandAfter (table.openNumbers.map Int.ofNat) uses
    s.Sound hand ∧
    (∀ use, s.Permitted use →
      Step s (s.perform use) (s.inHand hand use) (s.released? use)) ∧
    (∀ before after i, uses = before ++ after → ((start table).performAll before).Owned i →
      s.Owned i ∨ s.store.records.releases i = 1) ∧
    ((∀ j, s.handle? j = none) → (∀ i, (s.store.record? i).isSome → s.Owned i) →
      (∀ fd, s.store.table.isOpen fd = true ↔ fd ∈ hand) ∧
      ∀ i < s.store.records.size, s.store.records.releases i = 1) := by
  intro s hand
  have hs : s.Sound hand := (sound_start table).performAll hp
  refine ⟨hs, fun use => hs.step_perform, fun before after i he ho => ?_,
    fun hhandles hrecords => ?_⟩
  · obtain ⟨hbefore, hafter⟩ := permittedRun_append.1 (he ▸ hp)
    have hsplit : s = ((start table).performAll before).performAll after := by
      simp [s, he, HandleSession.performAll]
    rw [hsplit]
    exact ((sound_start table).performAll hbefore).owned_performAll hafter ho
  · have hnone : ∀ i, s.store.record? i = none := by
      intro i
      refine Option.not_isSome_iff_eq_none.1 fun hsome => ?_
      obtain ⟨j, h, hh, -⟩ := hrecords i hsome
      simp [hhandles] at hh
    refine ⟨fun fd => ?_, fun i hi => ?_⟩
    · rw [hs.store.open_iff]
      simp [hnone]
    · have hmost := hs.store.releases_le i
      have hlive := s.store.records.live?_isSome_iff i
      have hdead : s.store.records.live? i = none := hnone i
      rw [hdead] at hlive
      simp [hi] at hlive
      omega

/-- A copy outlives the record it was made from, and a number that was closed with that record is
given out again. -/
theorem ownership_of_run_recycled :
    let table := DescriptorTable.withFirst 3 8
    let uses : List HandleUse :=
      [.openDescriptor, .openDescriptor, .create 1 1 [3], .new, .hold 0 (some 0) true, .duplicate 0,
        .take 0, .drop 2, .openDescriptor, .drop 0, .drop 1]
    (start table).PermittedRun uses ∧
    ∀ fd, ((start table).performAll uses).store.table.isOpen fd = true ↔ fd ∈ [3, 4, 0, 1, 2] := by
  intro table uses
  have hp : (start table).PermittedRun uses := by decide
  have hhandles : ((start table).performAll uses).handles = [none, none, none] := by decide
  have hhand : (start table).inHandAfter (table.openNumbers.map Int.ofNat) uses =
      [3, 4, 0, 1, 2] := by decide
  have hreleased : ∀ i < ((start table).performAll uses).store.records.size,
      ((start table).performAll uses).store.records.releases i = 1 := by decide
  have hopen := (ownership_of_run hp).2.2.2 (fun j => ?_) (fun i hi => ?_)
  · exact ⟨hp, hhand ▸ hopen.1⟩
  · rw [handle?, hhandles]
    match j with
    | 0 | 1 | 2 | _ + 3 => rfl
  · obtain ⟨hlt, hzero⟩ := (Arena.live?_isSome_iff _ i).1 hi
    simp [hreleased i hlt] at hzero

end HandleSession

end HalLink
