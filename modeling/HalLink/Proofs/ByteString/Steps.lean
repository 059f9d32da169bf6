import HalLink.Proofs.ByteString.Ownership

/-!
The few ways in which a step acts on strings: it may leave all as they are, add a string, refill,
empty or move one, or make one borrow.
-/

set_option autoImplicit false

namespace HalLink

namespace StringStep

def target? : StringStep → Option Nat
  | .borrow slot _ _ | .assign slot _ | .assignCString slot _ | .clear slot | .take slot
  | .assignFrom slot _ | .drop slot => some slot
  | _ => none

def copies : StringStep → Bool
  | .copy _ | .copyUntilNul _ | .copyCString _ | .copyParts _ _ | .duplicate _ | .assign _ _
  | .assignCString _ _ | .assignFrom _ _ => true
  | _ => false

/-- The slot of the string that a step makes or changes, told by its outcome. -/
def filled? (step : StringStep) : StringResult → Option Nat
  | .created slot | .derived slot _ => some slot
  | .done => step.target?
  | _ => none

end StringStep

def ByteString.Detached (x : ByteString) : Prop := ∀ p, x.place ≠ .external p

def Memory.Spans (m : Memory) (p : Pointer) (length : Nat) : Prop :=
  ∃ bytes, m.buffers[p.buffer]? = some bytes ∧ p.offset + length ≤ bytes.length

theorem Memory.Copied.detached {m m' : Memory} {x : ByteString} (h : m.Copied (.ok (m', x))) :
    x.Detached := by
  cases h with
  | empty => simp [ByteString.Detached, ByteString.empty]
  | full _ _ => simp [ByteString.Detached]

namespace StringSession

variable {s : StringSession} {step : StringStep} {slot i : Nat} {x : ByteString}

inductive Effect (s : StringSession) (step : StringStep) : StringSession × StringResult → Prop where
  | nothing {answer : StringResult} :
      step.filled? answer = none → Effect s step (s, answer)
  | buffers {buffers : List (List UInt8)} {answer : StringResult} :
      step.copies = false → Effect s step ({ s with memory := { s.memory with buffers } }, answer)
  | added {memory : Memory} {x : ByteString} {answer : StringResult} :
      s.memory.Copied (.ok (memory, x)) → step.filled? answer = some s.strings.length →
      Effect s step (⟨memory, s.strings ++ [some x]⟩, answer)
  | refilled {slot : Nat} {x y : ByteString} {memory : Memory} :
      s.string? slot = some x → step.target? = some slot →
      (s.memory.release x).Copied (.ok (memory, y)) →
      Effect s step (⟨memory, s.strings.set slot (some y)⟩, .done)
  | vacated {slot : Nat} {x : ByteString} {y? : Option ByteString} {answer : StringResult} :
      s.string? slot = some x → step.target? = some slot → (∀ y ∈ y?, y = .empty) →
      (step.copies = true → step.filled? answer = none) →
      Effect s step (⟨s.memory.release x, s.strings.set slot y?⟩, answer)
  | borrowed {slot : Nat} {x : ByteString} {p : Pointer} {size : UInt32} :
      s.string? slot = some x → step.target? = some slot → step.copies = false →
      s.memory.Spans p size.toNat →
      Effect s step
        (⟨s.memory.release x, s.strings.set slot (some ⟨.external p, size, false⟩)⟩, .done)
  | moved {slot : Nat} {x : ByteString} :
      s.string? slot = some x → step = .take slot →
      Effect s step ({ s with strings := s.strings.set slot (some .empty) ++ [some x] },
        .derived s.strings.length true)

theorem Effect.withBuffer (data : Option Pointer) {operation : StringSession × StringResult}
    (h : Effect s step operation) : Effect s step (s.withBuffer data operation) := by
  rcases s.withBuffer_cases data operation with he | ⟨fault, he⟩
  · rwa [he]
  · rw [he]
    exact .nothing rfl

theorem Effect.withString (slot : Nat) {operation : ByteString → StringSession × StringResult}
    (h : ∀ x, s.string? slot = some x → Effect s step (operation x)) :
    Effect s step (s.withString slot operation) := by
  cases hx : s.string? slot with
  | none =>
    simp only [StringSession.withString, hx]
    split <;> exact .nothing rfl
  | some x =>
    rw [withString_of hx]
    exact h x hx

theorem Effect.ite {allowed : Bool} {operation : StringSession × StringResult}
    (h : allowed = true → Effect s step operation) :
    Effect s step (if allowed then operation else (s, .refused)) := by
  cases allowed with
  | true => exact h rfl
  | false => exact .nothing rfl

theorem effect_construct {made : Except Fatal (Memory × ByteString)} (h : s.memory.Copied made) :
    Effect s step (s.construct made) := by
  cases made with
  | error fault => exact .nothing rfl
  | ok made => exact .added h rfl

theorem effect_refill {made : Except Fatal (Memory × ByteString)} (hx : s.string? slot = some x)
    (ht : step.target? = some slot) (h : (s.memory.release x).Copied made) :
    Effect s step (s.put slot ((s.memory.release x).refilled made)) := by
  cases made with
  | error fault => exact .vacated hx ht (by simp [Memory.refilled]) (fun _ => rfl)
  | ok made => exact .refilled hx ht h

theorem length_of_canRead {data : Option Pointer} {length : Nat}
    (h : s.canRead data length = true) (hlt : length < UInt32.size) :
    (data.elim [] fun p => (s.memory.bytesFrom p).take length).length = length := by
  by_cases hzero : length = 0
  · subst hzero
    cases data <;> rfl
  · cases data with
    | none => simp [canRead, hzero, Nat.not_le.2 hlt] at h
    | some p =>
      exact List.length_take_of_le (by simpa [canRead, hzero, Nat.not_le.2 hlt] using h)

theorem spans_of_canRead {p : Pointer} {length : Nat} (h : s.canRead (some p) length = true)
    (hne : length ≠ 0) (hlt : length < UInt32.size) : s.memory.Spans p length := by
  have hle : length ≤ (s.memory.bytesFrom p).length := by
    have hlength := length_of_canRead h hlt
    rw [Option.elim_some, List.length_take] at hlength
    omega
  cases hb : s.memory.buffers[p.buffer]? with
  | none =>
    simp [Memory.bytesFrom, hb] at hle
    exact absurd hle hne
  | some bytes =>
    simp [Memory.bytesFrom, hb] at hle
    exact ⟨bytes, hb, by omega⟩

theorem effect_borrow (hx : s.string? slot = some x) {data : Option Pointer} {length : Nat}
    (hread : s.canRead data length = true) :
    Effect s (.borrow slot data length) (s.put slot (s.memory.borrow x data length)) := by
  by_cases hlt : length < UInt32.size
  · have hempty : Effect s (.borrow slot data length)
        (s.put slot ⟨s.memory.release x, .empty, none⟩) :=
      .vacated hx rfl (by simp) (by simp [StringStep.copies])
    cases data with
    | none => simpa [Memory.borrow, checkedSize, hlt] using hempty
    | some p =>
      by_cases hsize : UInt32.ofNat length = 0
      · simpa [Memory.borrow, checkedSize, hlt, hsize] using hempty
      · have hlength : (UInt32.ofNat length).toNat = length := by simpa [UInt32.size] using hlt
        have hne : length ≠ 0 := fun h0 => hsize (by rw [h0]; rfl)
        have hspans := spans_of_canRead hread hne hlt
        rw [← hlength] at hspans
        have hlent : Effect s (.borrow slot (some p) length)
            (s.put slot ⟨s.memory.release x, ⟨.external p, .ofNat length, false⟩, none⟩) :=
          .borrowed hx rfl rfl hspans
        simpa [Memory.borrow, checkedSize, hlt, hsize] using hlent
  · have hsame : s.strings.set slot (some x) = s.strings := slot_set_self hx
    have he : s.put slot (s.memory.borrow x data length) = (s, .fatal .stringSize) := by
      simp [Memory.borrow, checkedSize, hlt, StringSession.put, hsame]
    rw [he]
    exact .nothing rfl

theorem effect_duplicate (slot : Nat) (x : ByteString) :
    Effect s (.duplicate slot) (match s.memory.duplicate x with
      | .ok (memory, copy) => (⟨memory, s.strings ++ [some copy]⟩,
          .derived s.strings.length (copy.place == x.place))
      | .error fault => (s, .fatal fault)) := by
  have hmade := s.memory.copied_copy (s.memory.bytes x)
  rw [← Memory.duplicate] at hmade
  cases hd : s.memory.duplicate x with
  | error fault => exact .nothing rfl
  | ok made => exact .added (hd ▸ hmade) rfl

theorem effect_step (s : StringSession) (step : StringStep) : Effect s step (s.step step) := by
  cases step with
  | makeBuffer bytes => exact .buffers rfl
  | poke p byte =>
    refine .withBuffer (some p) ?_
    split
    · exact .buffers rfl
    · exact .nothing rfl
  | create => exact effect_construct .empty
  | copy bytes => exact effect_construct (s.memory.copied_copy bytes)
  | copyUntilNul bytes => exact effect_construct (s.memory.copied_copy _)
  | copyCString data =>
    exact .withBuffer data (.ite fun _ => effect_construct (s.memory.copied_copyCString _))
  | copyParts data length =>
    exact .withBuffer data (.ite fun _ => effect_construct (s.memory.copied_copyParts data length))
  | borrow slot data length =>
    exact .withBuffer data (.withString slot fun x hx => .ite fun hread => effect_borrow hx hread)
  | assign slot bytes =>
    exact .withString slot fun x hx => effect_refill hx rfl (Memory.copied_copy _ bytes)
  | assignCString slot data =>
    exact .withBuffer data (.withString slot fun x hx => .ite fun _ =>
      effect_refill hx rfl (Memory.copied_copyCString _ _))
  | clear slot =>
    exact .withString slot fun x hx => .vacated hx rfl (by simp) (by simp [StringStep.copies])
  | take slot =>
    refine .withString slot fun x hx => ?_
    have hmoved : Effect s (.take slot) _ := .moved hx rfl
    simpa [ByteString.take] using hmoved
  | duplicate slot => exact .withString slot fun x _ => effect_duplicate slot x
  | assignFrom slot other =>
    exact .withString other fun model _ => .withString slot fun x hx =>
      effect_refill hx rfl (Memory.copied_copy _ _)
  | drop slot =>
    exact .withString slot fun x hx => .vacated hx rfl (by simp) (by simp [StringStep.copies])
  | compare a b => exact .withString a fun _ _ => .withString b fun _ _ => .nothing rfl
  | equalsText slot text => exact .withString slot fun _ _ => .nothing rfl
  | equalsBytes slot bytes => exact .withString slot fun _ _ => .nothing rfl
  | view slot => exact .withString slot fun _ _ => .nothing rfl

variable {r : StringSession × StringResult}

theorem string?_set_of_ne (memory : Memory) (x? : Option ByteString) (hne : i ≠ slot) :
    string? ⟨memory, s.strings.set slot x?⟩ i = s.string? i := by
  simp only [string?, List.getElem?_set_ne (Ne.symm hne)]

theorem string?_set_self (memory : Memory) (hx : s.string? slot = some x)
    (y? : Option ByteString) : string? ⟨memory, s.strings.set slot y?⟩ slot = y? :=
  (string?_set memory (lt_of_string? hx) y? slot).trans (if_pos rfl)

theorem string?_append_self (memory : Memory) (strings : List (Option ByteString))
    (x : ByteString) : string? ⟨memory, strings ++ [some x]⟩ strings.length = some x :=
  (string?_append memory strings x _).trans (if_pos rfl)

theorem string?_append_of_lt (memory : Memory) (strings : List (Option ByteString))
    (x : ByteString) (hlt : i < strings.length) :
    string? ⟨memory, strings ++ [some x]⟩ i = strings[i]?.join := by
  rw [string?_append, if_neg (Nat.ne_of_lt hlt)]

theorem Effect.string?_of_ne (h : Effect s step r) (ht : step.target? ≠ some i)
    (hx : s.string? i = some x) : r.1.string? i = some x := by
  have hlt := lt_of_string? hx
  have hne : ∀ {slot}, step.target? = some slot → i ≠ slot := fun hs he => ht (he ▸ hs)
  cases h with
  | nothing _ => exact hx
  | buffers _ => exact hx
  | added _ _ => exact (string?_append_of_lt _ _ _ hlt).trans hx
  | refilled _ hslot _ => exact (string?_set_of_ne _ _ (hne hslot)).trans hx
  | vacated _ hslot _ _ => exact (string?_set_of_ne _ _ (hne hslot)).trans hx
  | borrowed _ hslot _ _ => exact (string?_set_of_ne _ _ (hne hslot)).trans hx
  | moved _ hstep =>
    have hslot := congrArg StringStep.target? hstep
    refine (string?_append_of_lt _ _ _ (by simpa using hlt)).trans ?_
    exact (string?_set_of_ne s.memory _ (hne hslot)).trans hx

theorem Effect.detached_of_copies (h : Effect s step r) (hc : step.copies = true)
    (hi : step.filled? r.2 = some i) : ∃ x, r.1.string? i = some x ∧ x.Detached := by
  cases h with
  | nothing hnone => simp [hnone] at hi
  | buffers hno => simp [hc] at hno
  | @added memory x _ hmade hnew =>
    obtain rfl := Option.some.inj (hnew.symm.trans hi)
    exact ⟨x, by rw [string?_append, if_pos rfl], hmade.detached⟩
  | @refilled slot x y memory hx hslot hmade =>
    obtain rfl := Option.some.inj (hslot.symm.trans hi)
    exact ⟨y, by rw [string?_set _ (lt_of_string? hx), if_pos rfl], hmade.detached⟩
  | vacated _ _ _ hnone => simp [hnone hc] at hi
  | borrowed _ _ hno _ => simp [hc] at hno
  | moved _ hstep => simp [hstep, StringStep.copies] at hc

/-- What borrows after a step either was there before or has just been shown bytes to borrow. -/
theorem Effect.external_cases (h : Effect s step r) {p : Pointer} (hx : r.1.string? i = some x)
    (hp : x.place = .external p) :
    (∃ j, s.string? j = some x) ∨ s.memory.Spans p x.size.toNat := by
  have hset : ∀ {slot y? z} memory, s.string? slot = some z →
      string? ⟨memory, s.strings.set slot y?⟩ i = some x →
      y? = some x ∨ ∃ j, s.string? j = some x := by
    intro slot y? z memory hz hx
    rw [string?_set _ (lt_of_string? hz)] at hx
    split at hx
    · exact .inl hx
    · exact .inr ⟨i, hx⟩
  cases h with
  | nothing _ => exact .inl ⟨i, hx⟩
  | buffers _ => exact .inl ⟨i, hx⟩
  | @added memory y _ hmade _ =>
    rw [string?_append] at hx
    split at hx
    · exact absurd hp (Option.some.inj hx ▸ hmade.detached p)
    · exact .inl ⟨i, hx⟩
  | refilled hy _ hmade =>
    rcases hset _ hy hx with he | hold
    · exact absurd hp (Option.some.inj he ▸ hmade.detached p)
    · exact .inl hold
  | vacated hy _ hempty _ =>
    rcases hset _ hy hx with he | hold
    · obtain rfl := hempty x he
      simp [ByteString.empty] at hp
    · exact .inl hold
  | borrowed hy _ _ hspans =>
    rcases hset _ hy hx with he | hold
    · obtain rfl := Option.some.inj he
      obtain rfl := Place.external.inj hp
      exact .inr hspans
    · exact .inl hold
  | @moved slot y hy _ =>
    rw [string?_append] at hx
    split at hx
    · exact .inl ⟨slot, hy.trans hx⟩
    · rcases hset s.memory hy hx with he | hold
      · obtain rfl := Option.some.inj he
        simp [ByteString.empty] at hp
      · exact .inl hold

variable {bytes : List UInt8}

theorem exists_construct (s : StringSession) (h : bytes.length < UInt32.size) :
    ∃ m y, s.construct (s.memory.copy bytes) =
      (⟨m, s.strings ++ [some y]⟩, .created s.strings.length) ∧ s.memory.CopyOf bytes m y := by
  obtain ⟨m, y, hcopy, hy⟩ := s.memory.exists_copy h
  exact ⟨m, y, by rw [hcopy, construct], hy⟩

theorem exists_put_assign (s : StringSession) (slot : Nat) (x : ByteString)
    (h : bytes.length < UInt32.size) :
    ∃ m y, s.put slot (s.memory.assign x bytes) = (⟨m, s.strings.set slot (some y)⟩, .done) ∧
      (s.memory.release x).CopyOf bytes m y := by
  obtain ⟨m, y, hcopy, hy⟩ := (s.memory.release x).exists_copy h
  exact ⟨m, y, by rw [Memory.assign, hcopy, Memory.refilled, StringSession.put], hy⟩

theorem construct_of_le (s : StringSession) (h : UInt32.size ≤ bytes.length) :
    s.construct (s.memory.copy bytes) = (s, .fatal .stringSize) := by
  rw [s.memory.copy_of_le h, construct]

theorem put_assign_of_le (s : StringSession) (slot : Nat) (x : ByteString)
    (h : UInt32.size ≤ bytes.length) :
    s.put slot (s.memory.assign x bytes) =
      (⟨s.memory.release x, s.strings.set slot (some .empty)⟩, .fatal .stringSize) := by
  rw [Memory.assign, (s.memory.release x).copy_of_le h, Memory.refilled, StringSession.put]

theorem exists_step_duplicate (hx : s.string? i = some x) :
    ∃ m y, s.step (.duplicate i) =
        (⟨m, s.strings ++ [some y]⟩, .derived s.strings.length (y.place == x.place)) ∧
      s.memory.CopyOf (s.memory.bytes x) m y := by
  obtain ⟨m, y, hcopy, hy⟩ := s.memory.exists_copy (s.memory.length_bytes_lt x)
  refine ⟨m, y, ?_, hy⟩
  simp only [StringSession.step, withString_of hx, Memory.duplicate, hcopy]

theorem exists_step_assignFrom {other : Nat} {y : ByteString} (hy : s.string? slot = some y)
    (hx : s.string? other = some x) :
    ∃ m copy, s.step (.assignFrom slot other) = (⟨m, s.strings.set slot (some copy)⟩, .done) ∧
      (s.memory.release y).CopyOf (s.memory.bytes x) m copy := by
  simp only [StringSession.step, withString_of hx, withString_of hy, Memory.assignFrom]
  exact s.exists_put_assign slot y (s.memory.length_bytes_lt x)

end StringSession

end HalLink
