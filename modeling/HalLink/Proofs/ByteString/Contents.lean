import HalLink.Proofs.ByteString.Steps

set_option autoImplicit false

namespace HalLink

def StringStep.writtenAll (buffer : Nat) (bytes : List UInt8) (steps : List StringStep) :
    List UInt8 :=
  steps.foldl (fun bytes step => step.written buffer bytes) bytes

namespace StringSession

/-- After these steps the contents of the string in the slot came from a copy. It may have been
moved there, and it stays a copy while the steps are for other strings or change nothing. -/
inductive FromCopy : List StringStep → Nat → Prop where
  | made {steps : List StringStep} {step : StringStep} {slot : Nat} :
      step.copies = true →
      step.filled? ((initial.stepAll steps).step step).2 = some slot →
      FromCopy (steps ++ [step]) slot
  | kept {steps : List StringStep} {step : StringStep} {slot : Nat} :
      FromCopy steps slot → step.target? ≠ some slot → FromCopy (steps ++ [step]) slot
  | unchanged {steps : List StringStep} {step : StringStep} {slot : Nat} :
      FromCopy steps slot → ((initial.stepAll steps).step step).1 = initial.stepAll steps →
      FromCopy (steps ++ [step]) slot
  | moved {steps : List StringStep} {slot new : Nat} {samePlace : Bool} :
      FromCopy steps slot →
      ((initial.stepAll steps).step (.take slot)).2 = .derived new samePlace →
      FromCopy (steps ++ [.take slot]) new

def InBounds (s : StringSession) : Prop :=
  ∀ i x p, s.string? i = some x → x.place = .external p → s.memory.Spans p x.size.toNat

variable {s s' : StringSession} {lent lent' : Lending} {step : StringStep} {i k : Nat}
  {x : ByteString} {steps : List StringStep}

@[simp] theorem stepAll_concat (s : StringSession) (steps : List StringStep) (step : StringStep) :
    s.stepAll (steps ++ [step]) = ((s.stepAll steps).step step).1 := by simp [stepAll]

theorem step_take (hk : s.string? k = some x) :
    s.step (.take k) = ({ s with strings := s.strings.set k (some .empty) ++ [some x] },
      .derived s.strings.length true) := by
  simp [StringSession.step, withString_of hk, ByteString.take]

theorem string?_step_take (hk : s.string? k = some x) :
    (s.step (.take k)).1.string? s.strings.length = some x ∧
      (s.step (.take k)).1.string? k = some .empty := by
  have hlt := lt_of_string? hk
  rw [step_take hk]
  refine ⟨by simp [string?_append], ?_⟩
  refine (string?_append_of_lt _ _ _ (by simpa using hlt)).trans ?_
  exact (string?_set s.memory hlt _ k).trans (if_pos rfl)

/-- A string that is not touched keeps the bytes of its own copy, since no one else can free it. -/
theorem Step.bytes_eq (hs : s.Sound lent) (h : Step s step s' lent') (hx : s.string? i = some x)
    (hx' : s'.string? i = some x) (hd : x.Detached) : s'.memory.bytes x = s.memory.bytes x := by
  obtain ⟨given, -, hchange⟩ := h.freed
  refine congrArg (List.take x.size.toNat) ?_
  cases hplace : x.place with
  | sentinel => rfl
  | external p => exact absurd hplace (hd p)
  | heap block =>
    have hsize : x.size ≠ 0 := by
      intro h0
      simp [((hs.holds hx).empty h0).1] at hplace
    have howned : x.owned = true := by
      refine Bool.of_not_eq_false fun hno => ?_
      obtain ⟨p, hp, -⟩ := (hs.holds hx).borrowed hno hsize
      exact hd p hp
    have howns : x.owns = some block := by simp [ByteString.owns, howned, hplace]
    obtain ⟨content, hlive⟩ := Option.isSome_iff_exists.1 ((hs.holds hx).live_of_owns howns)
    have hlive' := (h.sound.holds hx').live_of_owns howns
    have hsame := hchange.live hlive
    split at hsame
    · simp [hsame] at hlive'
    · simp [Memory.content, hlive, hsame]

theorem string?_stepAll (hx : s.string? i = some x)
    (hsteps : ∀ step ∈ steps, step.target? ≠ some i) : (s.stepAll steps).string? i = some x := by
  induction steps generalizing s with
  | nil => exact hx
  | cons step rest ih =>
    simp only [List.forall_mem_cons] at hsteps
    exact ih ((s.effect_step step).string?_of_ne hsteps.1 hx) hsteps.2

theorem bytes_stepAll (hs : s.Sound lent) (hx : s.string? i = some x) (hd : x.Detached)
    (hsteps : ∀ step ∈ steps, step.target? ≠ some i) :
    (s.stepAll steps).memory.bytes x = s.memory.bytes x := by
  induction steps generalizing s lent with
  | nil => rfl
  | cons step rest ih =>
    simp only [List.forall_mem_cons] at hsteps
    have hstep := hs.step_step step
    have hx' := (s.effect_step step).string?_of_ne hsteps.1 hx
    exact (ih hstep.sound hx' hsteps.2).trans (hstep.bytes_eq hs hx hx' hd)

theorem FromCopy.detached (h : FromCopy steps i) :
    ∃ x, (initial.stepAll steps).string? i = some x ∧ x.Detached := by
  induction h with
  | @made steps step slot hc hfilled =>
    rw [stepAll_concat]
    exact (effect_step _ step).detached_of_copies hc hfilled
  | @kept steps step slot _ ht ih =>
    obtain ⟨x, hx, hd⟩ := ih
    rw [stepAll_concat]
    exact ⟨x, (effect_step _ step).string?_of_ne ht hx, hd⟩
  | unchanged _ hsame ih =>
    rw [stepAll_concat, hsame]
    exact ih
  | @moved steps slot new samePlace _ hanswer ih =>
    obtain ⟨x, hx, hd⟩ := ih
    rw [step_take hx] at hanswer
    obtain ⟨rfl, -⟩ := StringResult.derived.inj hanswer
    rw [stepAll_concat]
    exact ⟨x, (string?_step_take hx).1, hd⟩

theorem Step.spans (h : Step s step s' lent') {p : Pointer} {length : Nat}
    (hp : s.memory.Spans p length) : s'.memory.Spans p length := by
  obtain ⟨bytes, hb, hle⟩ := hp
  exact ⟨_, h.buffers _ _ hb, by rwa [StringStep.length_written]⟩

theorem InBounds.step_step (hb : s.InBounds) (hs : s.Sound lent) (step : StringStep) :
    (s.step step).1.InBounds := by
  intro i x p hx hp
  refine (hs.step_step step).spans ?_
  rcases (s.effect_step step).external_cases hx hp with ⟨j, hj⟩ | hspans
  · exact hb j x p hj hp
  · exact hspans

theorem InBounds.stepAll (hb : s.InBounds) (hs : s.Sound lent) (steps : List StringStep) :
    (s.stepAll steps).InBounds := by
  induction steps generalizing s lent with
  | nil => exact hb
  | cons step rest ih => exact ih (hb.step_step hs step) (hs.step_step step).sound

theorem inBounds_initial : initial.InBounds := by
  intro i x p hx _
  simp [initial, string?] at hx

theorem buffers_stepAll (hs : s.Sound lent) {buffer : Nat} {bytes : List UInt8}
    (hb : s.memory.buffers[buffer]? = some bytes) (steps : List StringStep) :
    (s.stepAll steps).memory.buffers[buffer]? =
      some (StringStep.writtenAll buffer bytes steps) := by
  induction steps generalizing s lent bytes with
  | nil => exact hb
  | cons step rest ih =>
    have hstep := hs.step_step step
    exact ih hstep.sound (hstep.buffers buffer bytes hb)

theorem InBounds.bytes_eq (hb : s.InBounds) (hx : s.string? i = some x) {p : Pointer}
    (hp : x.place = .external p) : ∃ bytes, s.memory.buffers[p.buffer]? = some bytes ∧
      p.offset + x.size.toNat ≤ bytes.length ∧
      s.memory.bytes x = (bytes.drop p.offset).take x.size.toNat := by
  obtain ⟨bytes, hbuffer, hle⟩ := hb i x p hx hp
  exact ⟨bytes, hbuffer, hle, by simp [Memory.bytes, hp, Memory.content, Memory.bytesFrom, hbuffer]⟩

theorem InBounds.length_bytes (hb : s.InBounds) (hs : s.Sound lent) (hx : s.string? i = some x) :
    (s.memory.bytes x).length = x.size.toNat := by
  by_cases hsize : x.size = 0
  · simp [Memory.bytes, hsize]
  cases howned : x.owned with
  | true =>
    obtain ⟨-, block, content, hplace, hlive, hlength, -⟩ := (hs.holds hx).owned howned
    simp [Memory.bytes, hplace, Memory.content, hlive, hlength]
  | false =>
    obtain ⟨p, hp, -⟩ := (hs.holds hx).borrowed howned hsize
    obtain ⟨bytes, -, hle, hbytes⟩ := hb.bytes_eq hx hp
    rw [hbytes, List.length_take, List.length_drop]
    omega

theorem written_of_not_poke (hno : ∀ p byte, step ≠ .poke p byte) (buffer : Nat)
    (bytes : List UInt8) : step.written buffer bytes = bytes := by
  cases step with
  | poke p byte => exact absurd rfl (hno p byte)
  | _ => rfl

theorem Step.bytes_kept (hb : s.InBounds) (hs : s.Sound lent) (h : Step s step s' lent')
    (hno : ∀ p byte, step ≠ .poke p byte) (hx : s.string? i = some x)
    (hx' : s'.string? i = some x) : s'.memory.bytes x = s.memory.bytes x := by
  by_cases hd : x.Detached
  · exact h.bytes_eq hs hx hx' hd
  · obtain ⟨p, hp⟩ : ∃ p, x.place = .external p := by simpa [ByteString.Detached] using hd
    obtain ⟨bytes, hbuffer, -⟩ := hb.bytes_eq hx hp
    have hkept := h.buffers _ _ hbuffer
    rw [written_of_not_poke hno] at hkept
    simp only [Memory.bytes, hp, Memory.content, Memory.bytesFrom, hbuffer, hkept]

theorem InBounds.bytes_of_copyOf (hb : s.InBounds) (hs : s.Sound lent) (hx : s.string? i = some x)
    {bytes : List UInt8} {m : Memory} {y : ByteString} (h : s.memory.CopyOf bytes m y) :
    m.bytes x = s.memory.bytes x := by
  have hlength := hb.length_bytes hs hx
  by_cases hnil : s.memory.content x.place = []
  · rw [Memory.bytes, hnil, List.take_nil, List.length_nil] at hlength
    rw [Memory.bytes, Memory.bytes, ← hlength, List.take_zero, List.take_zero]
  · rw [Memory.bytes, h.content_eq hnil, Memory.bytes]

theorem exists_sound_inBounds (steps : List StringStep) :
    ∃ lent, (initial.stepAll steps).Sound lent ∧ (initial.stepAll steps).InBounds :=
  ⟨_, (sound_initial fun _ => none).stepAll steps,
    inBounds_initial.stepAll (sound_initial fun _ => none) steps⟩

/-- Main result: a copy keeps its place, its size and its bytes through all steps for other strings
and all writes to buffers. A string that borrows reads its part of the buffer, as long as it was
when it was lent, and the buffers change by the writes of their owners alone. A string that is moved
is what it was in its new slot and empty in the old one. -/
theorem contents_of_run (before later : List StringStep) :
    let s := initial.stepAll before
    let s' := s.stepAll later
    (∀ i, FromCopy before i → (∀ step ∈ later, step.target? ≠ some i) →
      ∃ x, s.string? i = some x ∧ s'.string? i = some x ∧ (∀ p, x.place ≠ .external p) ∧
        s'.memory.bytes x = s.memory.bytes x) ∧
    (∀ i x p, s.string? i = some x → x.place = .external p →
      (∀ step ∈ later, step.target? ≠ some i) →
      s'.string? i = some x ∧ ∃ bytes, s'.memory.buffers[p.buffer]? = some bytes ∧
        p.offset + x.size.toNat ≤ bytes.length ∧
        s'.memory.bytes x = (bytes.drop p.offset).take x.size.toNat) ∧
    (∀ buffer bytes, s.memory.buffers[buffer]? = some bytes →
      s'.memory.buffers[buffer]? = some (StringStep.writtenAll buffer bytes later) ∧
      ∀ step, (∀ p byte, step ≠ .poke p byte) →
        (s.step step).1.memory.buffers[buffer]? = some bytes) ∧
    ∀ k x, s.string? k = some x →
      let t := (s.step (.take k)).1
      t.string? s.strings.length = some x ∧ t.string? k = some .empty ∧
        t.memory.bytes x = s.memory.bytes x := by
  intro s s'
  have hs : s.Sound _ := (sound_initial fun _ => none).stepAll before
  have hbounds : s.InBounds := inBounds_initial.stepAll (sound_initial fun _ => none) before
  refine ⟨fun i hcopy hlater => ?_, fun i x p hx hp hlater => ?_, fun buffer bytes hb => ?_,
    fun k x hk => ?_⟩
  · obtain ⟨x, hx, hd⟩ := hcopy.detached
    exact ⟨x, hx, string?_stepAll hx hlater, hd, bytes_stepAll hs hx hd hlater⟩
  · have hx' := string?_stepAll hx hlater
    exact ⟨hx', (hbounds.stepAll hs later).bytes_eq hx' hp⟩
  · refine ⟨buffers_stepAll hs hb later, fun step hne => ?_⟩
    rw [(hs.step_step step).buffers buffer bytes hb]
    cases step with
    | poke p byte => exact absurd rfl (hne p byte)
    | _ => rfl
  · obtain ⟨hnew, hold⟩ := string?_step_take hk
    exact ⟨hnew, hold, by rw [step_take hk]⟩

/-- A copy is made of what a string borrows, the borrowing string is moved, and then the owner of
the buffer writes to it. -/
theorem contents_of_run_overwritten :
    let before : List StringStep := [.makeBuffer [1, 2, 3], .create, .borrow 0 (some ⟨0, 1⟩) 2,
      .duplicate 0, .take 0]
    let s' := (initial.stepAll before).stepAll [.poke ⟨0, 1⟩ 9, .assign 0 [7]]
    FromCopy before 1 ∧ (∃ x, s'.string? 1 = some x ∧ s'.memory.bytes x = [2, 3]) ∧
      ∃ x, s'.string? 2 = some x ∧ s'.memory.bytes x = [9, 3] := by
  intro before s'
  have hmade : FromCopy ([.makeBuffer [1, 2, 3], .create, .borrow 0 (some ⟨0, 1⟩) 2] ++
      [.duplicate 0]) 1 := .made rfl rfl
  have hcopy : FromCopy before 1 := .kept hmade (by decide)
  obtain ⟨hcopies, hviews, -, -⟩ :=
    contents_of_run before [.poke ⟨0, 1⟩ 9, .assign 0 [7]]
  refine ⟨hcopy, ?_, ?_⟩
  · obtain ⟨x, hx, hx', -, hbytes⟩ := hcopies 1 hcopy (by decide)
    obtain rfl : ⟨.heap 0, 2, true⟩ = x := Option.some.inj hx
    exact ⟨_, hx', hbytes⟩
  · obtain ⟨hx', bytes, hb, -, hbytes⟩ :=
      hviews 2 ⟨.external ⟨0, 1⟩, 2, false⟩ _ rfl rfl (by decide)
    obtain rfl : [1, 9, 3, 0] = bytes := Option.some.inj hb
    exact ⟨_, hx', hbytes⟩

end StringSession

end HalLink
