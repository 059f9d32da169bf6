import HalLink.ByteString.Session
import HalLink.Proofs.ByteString.Memory
import HalLink.Proofs.Numbering

set_option autoImplicit false

namespace HalLink

/-- For each slot the location and the length that were last lent to its string. -/
abbrev Lending := Nat → Option (Pointer × Nat)

def StringStep.written (buffer : Nat) (bytes : List UInt8) : StringStep → List UInt8
  | .poke p byte => if p.buffer = buffer then bytes.set p.offset byte else bytes
  | _ => bytes

theorem StringStep.length_written (buffer : Nat) (bytes : List UInt8) (step : StringStep) :
    (step.written buffer bytes).length = bytes.length := by
  cases step with
  | poke p byte =>
    simp only [written]
    split <;> simp
  | _ => rfl

namespace StringSession

variable {s s' : StringSession} {lent lent' : Lending} {given : Option Nat} {i j k : Nat}
  {x : ByteString}

/-- What was lent last, after a step. A string that is moved takes it along. -/
def lentAfter (s : StringSession) (lent : Lending) : StringStep → Lending
  | .borrow slot data length =>
    match (s.step (.borrow slot data length)).2 with
    | .done => fun i => if i = slot then data.map (·, length) else lent i
    | _ => lent
  | .take slot => fun i => if i = s.strings.length then lent slot else lent i
  | _ => lent

def stepAll (s : StringSession) (steps : List StringStep) : StringSession :=
  steps.foldl (fun s step => (s.step step).1) s

def lentAfterAll (s : StringSession) (lent : Lending) : List StringStep → Lending
  | [] => lent
  | step :: rest => lentAfterAll (s.step step).1 (s.lentAfter lent step) rest

def Owned (s : StringSession) (block : Nat) : Prop :=
  ∃ i x, s.string? i = some x ∧ x.owns = some block

structure Sound (s : StringSession) (lent : Lending) : Prop where
  holds : ∀ {i x}, s.string? i = some x → s.memory.Holds (lent i) x
  owner_unique : ∀ {i j x y block}, s.string? i = some x → s.string? j = some y →
    x.owns = some block → y.owns = some block → i = j
  owned : ∀ {block}, (s.memory.heap.live? block).isSome → s.Owned block
  releases_le : ∀ block, s.memory.heap.releases block ≤ 1

/-- What an operation on strings does: of the blocks that strings own it may free one, and it frees
nothing else. -/
structure Change (s s' : StringSession) (lent' : Lending) : Prop where
  sound : s'.Sound lent'
  freed : ∃ given, (∀ block ∈ given, s.Owned block) ∧
    Arena.Change s.memory.heap s'.memory.heap given
  buffers : s'.memory.buffers = s.memory.buffers

structure Step (s : StringSession) (step : StringStep) (s' : StringSession) (lent' : Lending) :
    Prop where
  sound : s'.Sound lent'
  freed : ∃ given, (∀ block ∈ given, s.Owned block) ∧
    Arena.Change s.memory.heap s'.memory.heap given
  buffers : ∀ buffer bytes, s.memory.buffers[buffer]? = some bytes →
    s'.memory.buffers[buffer]? = some (step.written buffer bytes)

theorem Change.refl (hs : s.Sound lent) : Change s s lent where
  sound := hs
  freed := ⟨none, by simp, .refl s.memory.heap⟩
  buffers := rfl

theorem string?_set (memory : Memory) (hk : k < s.strings.length) (x? : Option ByteString)
    (j : Nat) :
    string? ⟨memory, s.strings.set k x?⟩ j = if j = k then x? else s.string? j :=
  slot_set hk x? j

theorem string?_append (memory : Memory) (strings : List (Option ByteString)) (x : ByteString)
    (j : Nat) :
    string? ⟨memory, strings ++ [some x]⟩ j =
      if j = strings.length then some x else strings[j]?.join := slot_append strings x j

theorem string?_length (s : StringSession) : s.string? s.strings.length = none :=
  slot_length s.strings

theorem lt_of_string? (hx : s.string? i = some x) : i < s.strings.length := lt_of_slot hx

/-- Only slot `k` changes. What is given up was not another's, and neither is what slot `k` comes
to own. -/
theorem Sound.put (hs : s.Sound lent) (hlent : ∀ i, i ≠ k → lent' i = lent i)
    (hothers : ∀ i, i ≠ k → s'.string? i = s.string? i)
    (hchange : Arena.Change s.memory.heap s'.memory.heap given)
    (hgiven : ∀ block ∈ given, (s.memory.heap.live? block).isSome ∧
      ∀ i x, i ≠ k → s.string? i = some x → x.owns ≠ some block)
    (hnew : ∀ y, s'.string? k = some y → s'.memory.Holds (lent' k) y ∧
      ∀ block ∈ y.owns, ∀ i x, i ≠ k → s.string? i = some x → x.owns ≠ some block)
    (hlive : ∀ block, (s'.memory.heap.live? block).isSome →
      (∃ y, s'.string? k = some y ∧ y.owns = some block) ∨
        ∃ i x, i ≠ k ∧ s.string? i = some x ∧ x.owns = some block) : s'.Sound lent' where
  holds {i x} hx := by
    by_cases hi : i = k
    · subst hi
      exact (hnew x hx).1
    · rw [hothers i hi] at hx
      rw [hlent i hi]
      refine (hs.holds hx).congr fun block ho => ?_
      obtain ⟨content, hcontent⟩ := Option.isSome_iff_exists.1 ((hs.holds hx).live_of_owns ho)
      rw [hcontent]
      exact hchange.live_of_ne (fun he => (hgiven block he).2 i x hi hx ho) hcontent
  owner_unique {i j x y block} hx hy ho ho' := by
    by_cases hi : i = k <;> by_cases hj : j = k
    · exact hi.trans hj.symm
    · subst hi
      rw [hothers j hj] at hy
      exact absurd ho' ((hnew x hx).2 block ho j y hj hy)
    · subst hj
      rw [hothers i hi] at hx
      exact absurd ho ((hnew y hy).2 block ho' i x hi hx)
    · rw [hothers i hi] at hx
      rw [hothers j hj] at hy
      exact hs.owner_unique hx hy ho ho'
  owned {block} hblock := by
    rcases hlive block hblock with ⟨y, hy, ho⟩ | ⟨i, x, hi, hx, ho⟩
    · exact ⟨k, y, hy, ho⟩
    · exact ⟨i, x, (hothers i hi).trans hx, ho⟩
  releases_le := hchange.releases_le (fun block h => (hgiven block h).1) hs.releases_le

theorem Sound.owned_elsewhere (hs : s.Sound lent) (hk : ∀ x, s.string? k = some x → x.owns = none)
    {block : Nat} (hblock : (s.memory.heap.live? block).isSome) :
    ∃ i x, i ≠ k ∧ s.string? i = some x ∧ x.owns = some block := by
  obtain ⟨i, x, hx, ho⟩ := hs.owned hblock
  refine ⟨i, x, fun hi => ?_, hx, ho⟩
  subst hi
  simp [hk x hx] at ho

theorem Sound.change_vacate (hs : s.Sound lent) (hk : s.string? k = some x)
    (hlent : ∀ i, i ≠ k → lent' i = lent i) {y? : Option ByteString}
    (hempty : ∀ y ∈ y?, y = .empty) :
    Change s ⟨s.memory.release x, s.strings.set k y?⟩ lent' where
  sound := by
    have hslot := string?_set (s.memory.release x) (lt_of_string? hk) y?
    refine hs.put hlent (fun i hi => by simp [hslot, hi])
      (Memory.change_release (hs.holds hk)) (fun block ho => ⟨?_, ?_⟩) (fun y hy => ?_)
      (fun block hblock => .inr ?_)
    · exact (hs.holds hk).live_of_owns ho
    · exact fun i y hi hy ho' => hi (hs.owner_unique hy hk ho' ho)
    · obtain rfl := hempty y (by simpa [hslot] using hy)
      exact ⟨Memory.holds_empty _ _, by simp⟩
    · obtain ⟨hblock, hne⟩ := (Memory.live?_release_iff s.memory x block).1 hblock
      obtain ⟨i, y, hy, ho⟩ := hs.owned hblock
      refine ⟨i, y, fun hi => ?_, hy, ho⟩
      subst hi
      rw [hk] at hy
      exact hne (Option.some.inj hy ▸ ho)
  freed := ⟨x.owns, fun _ ho => ⟨k, x, hk, ho⟩, Memory.change_release (hs.holds hk)⟩
  buffers := Memory.buffers_release s.memory x

theorem Sound.put_unowned (hs : s.Sound lent) (hk : ∀ x, s.string? k = some x → x.owns = none)
    {strings : List (Option ByteString)} {y : ByteString}
    (hlent : ∀ i, i ≠ k → lent' i = lent i)
    (hslot : ∀ i, string? ⟨s.memory, strings⟩ i = if i = k then some y else s.string? i)
    (hy : s.memory.Holds (lent' k) y) (ho : y.owns = none) : Sound ⟨s.memory, strings⟩ lent' := by
  refine hs.put hlent (fun i hi => by simp [hslot, hi]) (.refl s.memory.heap) (by simp)
    (fun z hz => ?_) (fun block hblock => .inr (hs.owned_elsewhere hk hblock))
  obtain rfl : y = z := by simpa [hslot] using hz
  exact ⟨hy, by simp [ho]⟩

theorem Sound.put_alloc (hs : s.Sound lent) (hk : ∀ x, s.string? k = some x → x.owns = none)
    {strings : List (Option ByteString)} {bytes : List UInt8} {size : UInt32} (hsize : size ≠ 0)
    (hlength : bytes.length = size.toNat)
    (hslot : ∀ memory i, string? ⟨memory, strings⟩ i =
      if i = k then some ⟨.heap s.memory.heap.size, size, true⟩ else s.string? i) :
    Sound ⟨{ s.memory with heap := (s.memory.heap.alloc (bytes ++ [0])).1 }, strings⟩ lent := by
  have hnew : ∀ i x, s.string? i = some x → x.owns ≠ some s.memory.heap.size := by
    intro i x hx ho
    have hlive := (hs.holds hx).live_of_owns ho
    simp at hlive
  refine hs.put (k := k) (fun _ _ => rfl) (fun i hi => by simp [hslot, hi]) (.alloc _ _) (by simp)
    (fun y hy => ?_) (fun block hblock => ?_)
  · obtain rfl : ⟨.heap s.memory.heap.size, size, true⟩ = y := by simpa [hslot] using hy
    refine ⟨s.memory.holds_alloc _ hsize hlength, fun block ho i x _ hx => ?_⟩
    obtain rfl : s.memory.heap.size = block := by simpa [ByteString.owns] using ho
    exact hnew i x hx
  · by_cases he : block = s.memory.heap.size
    · refine .inl ⟨⟨.heap s.memory.heap.size, size, true⟩, by simp [hslot], ?_⟩
      simp [ByteString.owns, he]
    · refine .inr (hs.owned_elsewhere hk ?_)
      simpa [Arena.live?_alloc, he] using hblock

theorem Sound.change_construct (hs : s.Sound lent) {result : Except Fatal (Memory × ByteString)}
    (hr : s.memory.Copied result) : Change s (s.construct result).1 lent := by
  have hvacant : ∀ x, s.string? s.strings.length = some x → x.owns = none := by
    simp [s.string?_length]
  cases hr with
  | fatal => exact .refl hs
  | empty =>
    refine ⟨?_, ⟨none, by simp, .refl s.memory.heap⟩, rfl⟩
    exact hs.put_unowned hvacant (fun _ _ => rfl) (fun i => string?_append _ _ _ i)
      (Memory.holds_empty _ _) rfl
  | full hsize hlength =>
    refine ⟨?_, ⟨none, by simp, .alloc _ _⟩, rfl⟩
    exact hs.put_alloc hvacant hsize hlength (fun memory i => string?_append memory _ _ i)

/-- An assignment frees what the string owned before it copies, so that is gone also where the copy
is fatal. -/
theorem Sound.change_refill (hs : s.Sound lent) (hk : s.string? k = some x)
    {result : Except Fatal (Memory × ByteString)} (hr : (s.memory.release x).Copied result) :
    Change s (s.put k ((s.memory.release x).refilled result)).1 lent := by
  have hvacated : Change s ⟨s.memory.release x, s.strings.set k (some .empty)⟩ lent :=
    hs.change_vacate hk (fun _ _ => rfl) (by simp)
  have hslot := fun memory => string?_set memory (lt_of_string? hk)
  cases hr with
  | fatal => exact hvacated
  | empty => exact hvacated
  | @full bytes size hsize hlength =>
    refine ⟨?_, ⟨x.owns, fun _ ho => ⟨k, x, hk, ho⟩, ?_⟩, hvacated.buffers⟩
    · refine hvacated.sound.put_alloc (k := k) (fun y hy => ?_) hsize hlength fun memory i => ?_
      · obtain rfl : ByteString.empty = y := by simpa [hslot] using hy
        rfl
      · by_cases hi : i = k <;> simp [hslot, hi, Memory.refilled]
    · exact (Memory.change_release (hs.holds hk)).trans_right (.alloc _ _)

theorem withBuffer_cases (s : StringSession) (data : Option Pointer)
    (operation : StringSession × StringResult) :
    s.withBuffer data operation = operation ∨
      ∃ fault, s.withBuffer data operation = (s, .unknown fault) := by
  cases data with
  | none => exact .inl rfl
  | some p =>
    simp only [withBuffer]
    split
    · exact .inl rfl
    · exact .inr ⟨_, rfl⟩

theorem withString_of (hx : s.string? i = some x)
    (operation : ByteString → StringSession × StringResult) :
    s.withString i operation = operation x := by simp [withString, hx]

theorem withString_of_none (hx : s.string? i = none)
    (operation : ByteString → StringSession × StringResult) :
    (s.withString i operation).1 = s ∧ (s.withString i operation).2 ≠ .done := by
  simp only [withString, hx]
  split <;> simp

theorem Sound.change_withBuffer (hs : s.Sound lent) (data : Option Pointer)
    {operation : StringSession × StringResult} (h : Change s operation.1 lent) :
    Change s (s.withBuffer data operation).1 lent := by
  rcases s.withBuffer_cases data operation with he | ⟨fault, he⟩
  · rwa [he]
  · rw [he]
    exact .refl hs

theorem Sound.change_withString (hs : s.Sound lent) (slot : Nat)
    {operation : ByteString → StringSession × StringResult}
    (h : ∀ x, s.string? slot = some x → Change s (operation x).1 lent) :
    Change s (s.withString slot operation).1 lent := by
  cases hx : s.string? slot with
  | none =>
    rw [(withString_of_none hx operation).1]
    exact .refl hs
  | some x =>
    rw [withString_of hx]
    exact h x hx

theorem Sound.change_if (hs : s.Sound lent) {allowed : Bool} {result : StringResult}
    {operation : StringSession × StringResult} (h : Change s operation.1 lent) :
    Change s (if allowed then operation else (s, result)).1 lent := by
  cases allowed with
  | true => exact h
  | false => exact .refl hs

/-- What is borrowed is what was lent last; a length that does not fit changes nothing. -/
theorem Sound.change_borrow (hs : s.Sound lent) (hk : s.string? k = some x)
    (data : Option Pointer) (length : Nat) :
    Change s (s.put k (s.memory.borrow x data length)).1
      (match (s.put k (s.memory.borrow x data length)).2 with
        | .done => fun i => if i = k then data.map (·, length) else lent i
        | _ => lent) := by
  have hslot := fun memory => string?_set memory (lt_of_string? hk)
  by_cases hlt : length < UInt32.size
  · have hvacated : Change s ⟨s.memory.release x, s.strings.set k (some .empty)⟩
        (fun i => if i = k then data.map (·, length) else lent i) :=
      hs.change_vacate hk (fun i hi => by simp [hi]) (by simp)
    cases data with
    | none =>
      have he : s.memory.borrow x none length = ⟨s.memory.release x, .empty, none⟩ := by
        simp [Memory.borrow, checkedSize, hlt]
      rw [he]
      exact hvacated
    | some p =>
      by_cases hsize : UInt32.ofNat length = 0
      · have he : s.memory.borrow x (some p) length = ⟨s.memory.release x, .empty, none⟩ := by
          simp [Memory.borrow, checkedSize, hlt, hsize]
        rw [he]
        exact hvacated
      · have hlength : (UInt32.ofNat length).toNat = length := by
          simpa [UInt32.size] using hlt
        have he : s.memory.borrow x (some p) length =
            ⟨s.memory.release x, ⟨.external p, UInt32.ofNat length, false⟩, none⟩ := by
          simp [Memory.borrow, checkedSize, hlt, hsize]
        rw [he]
        refine ⟨?_, hvacated.freed, hvacated.buffers⟩
        refine hvacated.sound.put_unowned (k := k) (y := ⟨.external p, UInt32.ofNat length, false⟩)
          (fun y hy => ?_) (fun _ _ => rfl) (fun i => ?_) ?_ rfl
        · obtain rfl : ByteString.empty = y := by simpa [hslot] using hy
          rfl
        · by_cases hi : i = k <;> simp [hslot, hi]
        · refine ⟨UInt32.toNat_lt _, fun h => absurd h hsize, fun h => by simp at h, fun _ _ => ?_⟩
          exact ⟨p, rfl, by simp [StringSession.put, hlength]⟩
  · have he : s.memory.borrow x data length = ⟨s.memory, x, some .stringSize⟩ := by
      simp [Memory.borrow, checkedSize, hlt]
    have hsame : s.strings.set k (some x) = s.strings := slot_set_self hk
    rw [he]
    simp only [StringSession.put, hsame]
    exact .refl hs

theorem Sound.change_take (hs : s.Sound lent) (hk : s.string? k = some x) :
    Change s { s with strings := s.strings.set k (some .empty) ++ [some x] }
      (fun i => if i = s.strings.length then lent k else lent i) := by
  have hslot : ∀ i, string? ⟨s.memory, s.strings.set k (some .empty) ++ [some x]⟩ i =
      if i = s.strings.length then some x else if i = k then some .empty else s.string? i := by
    intro i
    rw [string?_append, List.length_set]
    exact ite_congr rfl (fun _ => rfl) fun _ => slot_set (lt_of_string? hk) (some .empty) i
  -- Where a string that owns something was before; nothing is moved from its old slot.
  have hfrom : ∀ {i y block}, string? ⟨s.memory, s.strings.set k (some .empty) ++ [some x]⟩ i =
      some y → y.owns = some block →
      i ≠ k ∧ s.string? (if i = s.strings.length then k else i) = some y := by
    intro i y block hy ho
    rw [hslot] at hy
    have hlt := lt_of_string? hk
    split at hy
    · next hi => exact ⟨by omega, by rw [if_pos hi, hk, hy]⟩
    · next hi =>
      split at hy
      · obtain rfl := Option.some.inj hy
        simp at ho
      · next hik => exact ⟨hik, by rw [if_neg hi, hy]⟩
  refine ⟨⟨fun {i y} hy => ?_, fun {i j y z block} hy hz ho ho' => ?_, fun {block} hblock => ?_,
    hs.releases_le⟩, ⟨none, by simp, .refl s.memory.heap⟩, rfl⟩
  · rw [hslot] at hy
    split at hy
    · next hi =>
      obtain rfl := Option.some.inj hy
      simpa [hi] using hs.holds hk
    · next hi =>
      split at hy
      · obtain rfl := Option.some.inj hy
        exact Memory.holds_empty _ _
      · simpa [hi] using hs.holds hy
  · obtain ⟨hik, hy⟩ := hfrom hy ho
    obtain ⟨hjk, hz⟩ := hfrom hz ho'
    have hsame := hs.owner_unique hy hz ho ho'
    split at hsame <;> split at hsame <;> omega
  · obtain ⟨i, y, hy, ho⟩ := hs.owned hblock
    have hlt := lt_of_string? hy
    by_cases hi : i = k
    · subst hi
      rw [hk] at hy
      exact ⟨s.strings.length, x, by simp [hslot], Option.some.inj hy ▸ ho⟩
    · exact ⟨i, y, by simp [hslot, hi, Nat.ne_of_lt hlt, hy], ho⟩

theorem Change.step (h : Change s s' lent') {step : StringStep}
    (hw : ∀ buffer bytes, step.written buffer bytes = bytes) : Step s step s' lent' where
  sound := h.sound
  freed := h.freed
  buffers buffer bytes hb := by rw [h.buffers, hb, hw]

theorem Sound.setBuffers (hs : s.Sound lent) (buffers : List (List UInt8)) :
    Sound ⟨{ s.memory with buffers }, s.strings⟩ lent where
  holds hx := (hs.holds hx).congr fun _ _ => rfl
  owner_unique := hs.owner_unique
  owned := hs.owned
  releases_le := hs.releases_le

theorem Sound.step_makeBuffer (hs : s.Sound lent) (bytes : List UInt8) :
    Step s (.makeBuffer bytes) (s.step (.makeBuffer bytes)).1 lent where
  sound := hs.setBuffers _
  freed := ⟨none, by simp, .refl s.memory.heap⟩
  buffers buffer old hb := by
    have hlt := (List.getElem?_eq_some_iff.1 hb).1
    simpa [StringSession.step, StringStep.written, List.getElem?_append_left hlt] using hb

theorem written_poke_of_not {p : Pointer} (hp : s.canRead (some p) 1 = false) (byte : UInt8)
    {buffer : Nat} {bytes : List UInt8} (hb : s.memory.buffers[buffer]? = some bytes) :
    (StringStep.poke p byte).written buffer bytes = bytes := by
  simp only [StringStep.written]
  split
  · next he =>
    subst he
    simp [canRead, Memory.bytesFrom, hb] at hp
    exact List.set_eq_of_length_le (by omega)
  · rfl

theorem Sound.step_poke (hs : s.Sound lent) (p : Pointer) (byte : UInt8) :
    Step s (.poke p byte) (s.step (.poke p byte)).1 lent := by
  simp only [StringSession.step, withBuffer]
  split
  · cases hp : s.canRead (some p) 1 with
    | true =>
      refine ⟨hs.setBuffers _, ⟨none, by simp, .refl s.memory.heap⟩, fun buffer bytes hb => ?_⟩
      simp only [if_true, Memory.poke, List.getElem?_modify, hb, StringStep.written]
      split <;> simp
    | false =>
      refine ⟨hs, ⟨none, by simp, .refl s.memory.heap⟩, fun buffer bytes hb => ?_⟩
      rw [written_poke_of_not hp byte hb]
      exact hb
  · next hlt =>
    refine ⟨hs, ⟨none, by simp, .refl s.memory.heap⟩, fun buffer bytes hb => ?_⟩
    have hne : p.buffer ≠ buffer := fun he => hlt (he ▸ (List.getElem?_eq_some_iff.1 hb).1)
    simpa [StringStep.written, hne] using hb

theorem Sound.step_borrow (hs : s.Sound lent) (slot : Nat) (data : Option Pointer)
    (length : Nat) :
    Change s (s.step (.borrow slot data length)).1
      (s.lentAfter lent (.borrow slot data length)) := by
  simp only [lentAfter, StringSession.step]
  rcases s.withBuffer_cases data _ with he | ⟨fault, he⟩
  · rw [he]
    cases hx : s.string? slot with
    | none =>
      obtain ⟨hsame, hresult⟩ := withString_of_none hx fun x =>
        if s.canRead data length then s.put slot (s.memory.borrow x data length) else (s, .refused)
      rw [hsame]
      split
      · next hdone => exact absurd hdone hresult
      · exact .refl hs
    | some x =>
      rw [withString_of hx]
      cases s.canRead data length with
      | true => exact hs.change_borrow hx data length
      | false => exact .refl hs
  · rw [he]
    exact .refl hs

theorem Sound.step_take (hs : s.Sound lent) (slot : Nat) :
    Change s (s.step (.take slot)).1 (s.lentAfter lent (.take slot)) := by
  simp only [lentAfter, StringSession.step]
  cases hx : s.string? slot with
  | none =>
    rw [(withString_of_none hx _).1]
    have hsound : s.Sound (fun i => if i = s.strings.length then lent slot else lent i) :=
      ⟨fun {i x} hi => by simpa [Nat.ne_of_lt (lt_of_string? hi)] using hs.holds hi,
        hs.owner_unique, hs.owned, hs.releases_le⟩
    exact .refl hsound
  | some x =>
    rw [withString_of hx]
    exact hs.change_take hx

theorem Sound.step_duplicate (hs : s.Sound lent) (slot : Nat) :
    Change s (s.step (.duplicate slot)).1 lent := by
  refine hs.change_withString slot fun x _ => ?_
  have hcopied := hs.change_construct (s.memory.copied_copy (s.memory.bytes x))
  simp only [Memory.duplicate]
  cases hr : s.memory.copy (s.memory.bytes x) with
  | error fault => simpa [hr, construct] using hcopied
  | ok copied => simpa [hr, construct] using hcopied

theorem Sound.step_step (hs : s.Sound lent) (step : StringStep) :
    Step s step (s.step step).1 (s.lentAfter lent step) := by
  cases step with
  | makeBuffer bytes => exact hs.step_makeBuffer bytes
  | poke p byte => exact hs.step_poke p byte
  | create => exact (hs.change_construct .empty).step fun _ _ => rfl
  | copy bytes => exact (hs.change_construct (s.memory.copied_copy bytes)).step fun _ _ => rfl
  | copyUntilNul bytes =>
    exact (hs.change_construct (s.memory.copied_copy _)).step fun _ _ => rfl
  | copyCString data =>
    refine (hs.change_withBuffer data (hs.change_if ?_)).step fun _ _ => rfl
    exact hs.change_construct (s.memory.copied_copyCString _)
  | copyParts data length =>
    refine (hs.change_withBuffer data (hs.change_if ?_)).step fun _ _ => rfl
    exact hs.change_construct (s.memory.copied_copyParts data length)
  | borrow slot data length => exact (hs.step_borrow slot data length).step fun _ _ => rfl
  | assign slot bytes =>
    refine (hs.change_withString slot fun x hx => ?_).step fun _ _ => rfl
    exact hs.change_refill hx (Memory.copied_copy _ bytes)
  | assignCString slot data =>
    refine (hs.change_withBuffer data (hs.change_withString slot fun x hx =>
      hs.change_if ?_)).step fun _ _ => rfl
    exact hs.change_refill hx (Memory.copied_copyCString _ _)
  | clear slot =>
    refine (hs.change_withString slot fun x hx => ?_).step fun _ _ => rfl
    exact hs.change_vacate hx (fun _ _ => rfl) (by simp)
  | take slot => exact (hs.step_take slot).step fun _ _ => rfl
  | duplicate slot => exact (hs.step_duplicate slot).step fun _ _ => rfl
  | assignFrom slot other =>
    refine (hs.change_withString other fun model _ => hs.change_withString slot fun x hx =>
      ?_).step fun _ _ => rfl
    exact hs.change_refill hx (Memory.copied_copy _ _)
  | drop slot =>
    refine (hs.change_withString slot fun x hx => ?_).step fun _ _ => rfl
    exact hs.change_vacate hx (fun _ _ => rfl) (by simp)
  | compare a b =>
    exact (hs.change_withString a fun _ _ => hs.change_withString b fun _ _ => .refl hs).step
      fun _ _ => rfl
  | equalsText slot text =>
    exact (hs.change_withString slot fun _ _ => .refl hs).step fun _ _ => rfl
  | equalsBytes slot bytes =>
    exact (hs.change_withString slot fun _ _ => .refl hs).step fun _ _ => rfl
  | view slot => exact (hs.change_withString slot fun _ _ => .refl hs).step fun _ _ => rfl

theorem sound_initial (lent : Lending) : initial.Sound lent where
  holds h := by simp [initial, string?] at h
  owner_unique h := by simp [initial, string?] at h
  owned h := by simp [initial, Memory.initial] at h
  releases_le block := by simp [initial, Memory.initial, Arena.releases, Arena.empty]

theorem Sound.stepAll (hs : s.Sound lent) (steps : List StringStep) :
    (s.stepAll steps).Sound (s.lentAfterAll lent steps) := by
  induction steps generalizing s lent with
  | nil => exact hs
  | cons step rest ih => exact ih (hs.step_step step).sound

/-- Main result: over every run, each string keeps its representation and the live blocks belong to
one string each. A step frees at most one block, which a string owned, and it keeps the buffers but
for what their owners write. When no string is left, every block was freed once. -/
theorem representation_of_run (steps : List StringStep) :
    let s := initial.stepAll steps
    let lent := initial.lentAfterAll (fun _ => none) steps
    s.Sound lent ∧
    (∀ step, Step s step (s.step step).1 (s.lentAfter lent step)) ∧
    ((∀ i, s.string? i = none) → ∀ block,
      s.memory.heap.live? block = none ∧
      (block < s.memory.heap.size → s.memory.heap.releases block = 1)) := by
  intro s lent
  have hs : s.Sound lent := (sound_initial _).stepAll steps
  refine ⟨hs, fun step => hs.step_step step, fun hgone block => ?_⟩
  have hdead : s.memory.heap.live? block = none := by
    refine Option.not_isSome_iff_eq_none.1 fun hlive => ?_
    obtain ⟨i, x, hx, -⟩ := hs.owned hlive
    simp [hgone] at hx
  refine ⟨hdead, fun hlt => ?_⟩
  have hmost := hs.releases_le block
  have hlive := s.memory.heap.live?_isSome_iff block
  rw [hdead] at hlive
  simp [hlt] at hlive
  omega

/-- The copy is moved before its first slot borrows, and freed where it was moved to. -/
theorem representation_of_run_moved :
    let s := initial.stepAll [.copy [104, 105], .take 0, .makeBuffer [1, 2, 3],
      .borrow 0 (some ⟨0, 1⟩) 2, .drop 1, .drop 0]
    (∀ i, s.string? i = none) ∧ s.memory.heap.releases 0 = 1 := by
  intro s
  have hstrings : s.strings = [none, none] := rfl
  have hgone : ∀ i, s.string? i = none := by
    intro i
    rw [string?, hstrings]
    match i with
    | 0 | 1 | _ + 2 => rfl
  exact ⟨hgone, ((representation_of_run _).2.2 hgone 0).2 (by decide)⟩

end StringSession

end HalLink
