import HalLink.Proofs.ByteString.Contents

/-!
The limit on the size of strings. A step is fatal exactly if it is to give a string more bytes than
its size can count; up to there the size is the number of bytes. What a fatal step leaves behind
depends on whether the string was to be refilled, which empties it first.
-/

set_option autoImplicit false

namespace HalLink

def StringStep.refills : StringStep → Bool
  | .assign _ _ | .assignCString _ _ | .assignFrom _ _ => true
  | _ => false

namespace Memory

variable {m : Memory} {x : ByteString} {data : Option Pointer} {length : Nat}

def cStringAt (m : Memory) : Option Pointer → List UInt8
  | none => []
  | some p => untilNul (m.bytesFrom p)

theorem copyCString_eq (m : Memory) (data : Option Pointer) :
    m.copyCString (data.map .external) = m.copy (m.cStringAt data) := by cases data <;> rfl

theorem assignCString_eq (m : Memory) (x : ByteString) (data : Option Pointer) :
    m.assignCString x (data.map .external) = m.assign x (m.cStringAt data) := by
  have hsame : (m.release x).cStringAt data = m.cStringAt data := by
    cases data with
    | none => rfl
    | some p => simp only [cStringAt, bytesFrom, buffers_release]
  rw [assignCString, copyCString_eq, hsame, assign]

end Memory

namespace StringSession

variable {s : StringSession} {lent : Lending} {step : StringStep} {slot i n length : Nat}
  {x : ByteString} {data : Option Pointer}

/-- How many bytes a step is to copy into a string or to lend to one. -/
def amount? (s : StringSession) : StringStep → Option Nat
  | .copy bytes | .assign _ bytes => some bytes.length
  | .copyUntilNul bytes => some (untilNul bytes).length
  | .copyCString data | .assignCString _ data => some (s.memory.cStringAt data).length
  | .copyParts _ length | .borrow _ _ length => some length
  | .duplicate slot | .assignFrom _ slot =>
    (s.string? slot).map fun x => (s.memory.bytes x).length
  | _ => none

def Reaches (s : StringSession) (data : Option Pointer) : Prop :=
  ∀ p ∈ data, p.buffer < s.memory.buffers.length

/-- What the caller of a step has to see to: the strings and buffers that it names are there, and
the bytes can be read. -/
def Permits (s : StringSession) : StringStep → Prop
  | .copyCString data => s.Reaches data ∧ s.canReadCString data = true
  | .copyParts data length => s.Reaches data ∧ s.canRead data length = true
  | .borrow slot data length =>
    (s.string? slot).isSome ∧ s.Reaches data ∧ s.canRead data length = true
  | .assign slot _ | .duplicate slot => (s.string? slot).isSome
  | .assignCString slot data =>
    (s.string? slot).isSome ∧ s.Reaches data ∧ s.canReadCString data = true
  | .assignFrom slot other => (s.string? slot).isSome ∧ (s.string? other).isSome
  | _ => True

inductive Sized (s : StringSession) (step : StringStep) (n : Nat) :
    StringSession × StringResult → Prop where
  | fits {t : StringSession} {answer : StringResult} {i : Nat} {x : ByteString} :
      n < UInt32.size → step.filled? answer = some i → t.string? i = some x →
      x.size.toNat = n → Sized s step n (t, answer)
  | untouched : UInt32.size ≤ n → step.refills = false → Sized s step n (s, .fatal .stringSize)
  | emptied {slot : Nat} {x : ByteString} :
      UInt32.size ≤ n → step.refills = true → step.target? = some slot → s.string? slot = some x →
      Sized s step n
        (⟨s.memory.release x, s.strings.set slot (some .empty)⟩, .fatal .stringSize)

theorem withBuffer_of (h : s.Reaches data) (operation : StringSession × StringResult) :
    s.withBuffer data operation = operation := by
  cases data with
  | none => rfl
  | some p => exact if_pos (h p rfl)

theorem sized_construct (bytes : List UInt8) (hr : step.refills = false)
    (hf : ∀ k, step.filled? (.created k) = some k) :
    s.Sized step bytes.length (s.construct (s.memory.copy bytes)) := by
  rcases Nat.lt_or_ge bytes.length UInt32.size with hlt | hle
  · obtain ⟨m, y, hmade, hy⟩ := s.exists_construct hlt
    rw [hmade]
    exact .fits hlt (hf _) (string?_append_self m s.strings y) hy.size
  · rw [s.construct_of_le hle]
    exact .untouched hle hr

theorem sized_assign (hx : s.string? slot = some x) (bytes : List UInt8)
    (hr : step.refills = true) (ht : step.target? = some slot)
    (hf : step.filled? .done = some slot) :
    s.Sized step bytes.length (s.put slot (s.memory.assign x bytes)) := by
  rcases Nat.lt_or_ge bytes.length UInt32.size with hlt | hle
  · obtain ⟨m, y, hmade, hy⟩ := s.exists_put_assign slot x hlt
    rw [hmade]
    exact .fits hlt hf (string?_set_self m hx (some y)) hy.size
  · rw [s.put_assign_of_le slot x hle]
    exact .emptied hle hr ht hx

theorem sized_copyParts (hread : s.canRead data length = true) :
    s.Sized (.copyParts data length) length (s.construct (s.memory.copyParts data length)) := by
  rcases Nat.lt_or_ge length UInt32.size with hlt | hle
  · have hsized : s.Sized (.copyParts data length) _ _ :=
      sized_construct (data.elim [] fun p => (s.memory.bytesFrom p).take length) rfl fun _ => rfl
    rwa [length_of_canRead hread hlt, ← s.memory.copyParts_of_lt data hlt] at hsized
  · rw [s.memory.copyParts_of_le data hle, construct]
    exact .untouched hle rfl

theorem sized_borrow (hx : s.string? slot = some x) (hread : s.canRead data length = true) :
    s.Sized (.borrow slot data length) length (s.put slot (s.memory.borrow x data length)) := by
  rcases Nat.lt_or_ge length UInt32.size with hlt | hle
  · obtain ⟨size, hchecked, hsize⟩ := Memory.checkedSize_of_lt hlt
    have hset := fun memory y => string?_set_self memory hx (some y)
    rw [Memory.borrow, hchecked]
    cases data with
    | none => exact .fits hlt rfl (hset _ _) (length_of_canRead hread hlt)
    | some p =>
      dsimp only
      split
      · next hzero => exact .fits hlt rfl (hset _ _) (by rw [← hsize, hzero]; rfl)
      · exact .fits hlt rfl (hset _ _) hsize
  · have hsame : s.strings.set slot (some x) = s.strings := slot_set_self hx
    rw [Memory.borrow, Memory.checkedSize_of_le hle, StringSession.put, hsame]
    exact .untouched hle rfl

theorem sized_step (hpermits : s.Permits step) (hn : s.amount? step = some n) :
    s.Sized step n (s.step step) := by
  cases step with
  | copy bytes =>
    obtain rfl := Option.some.inj hn
    exact sized_construct bytes rfl fun _ => rfl
  | copyUntilNul bytes =>
    obtain rfl := Option.some.inj hn
    exact sized_construct _ rfl fun _ => rfl
  | copyCString data =>
    obtain rfl := Option.some.inj hn
    obtain ⟨hreaches, hread⟩ := hpermits
    rw [StringSession.step, withBuffer_of hreaches, if_pos hread, Memory.copyCString_eq]
    exact sized_construct _ rfl fun _ => rfl
  | copyParts data length =>
    obtain rfl := Option.some.inj hn
    obtain ⟨hreaches, hread⟩ := hpermits
    rw [StringSession.step, withBuffer_of hreaches, if_pos hread]
    exact sized_copyParts hread
  | borrow slot data length =>
    obtain rfl := Option.some.inj hn
    obtain ⟨hslot, hreaches, hread⟩ := hpermits
    obtain ⟨x, hx⟩ := Option.isSome_iff_exists.1 hslot
    rw [StringSession.step, withBuffer_of hreaches, withString_of hx, if_pos hread]
    exact sized_borrow hx hread
  | assign slot bytes =>
    obtain rfl := Option.some.inj hn
    obtain ⟨x, hx⟩ := Option.isSome_iff_exists.1 hpermits
    rw [StringSession.step, withString_of hx]
    exact sized_assign hx bytes rfl rfl rfl
  | assignCString slot data =>
    obtain rfl := Option.some.inj hn
    obtain ⟨hslot, hreaches, hread⟩ := hpermits
    obtain ⟨x, hx⟩ := Option.isSome_iff_exists.1 hslot
    rw [StringSession.step, withBuffer_of hreaches, withString_of hx, if_pos hread,
      Memory.assignCString_eq]
    exact sized_assign hx _ rfl rfl rfl
  | duplicate slot =>
    obtain ⟨x, hx, rfl⟩ := Option.map_eq_some_iff.1 hn
    obtain ⟨m, y, hstep, hy⟩ := exists_step_duplicate hx
    rw [hstep]
    exact .fits (s.memory.length_bytes_lt x) rfl (string?_append_self m s.strings y) hy.size
  | assignFrom slot other =>
    obtain ⟨x, hx, rfl⟩ := Option.map_eq_some_iff.1 hn
    obtain ⟨y, hy⟩ := Option.isSome_iff_exists.1 hpermits.1
    obtain ⟨m, copy, hstep, hcopy⟩ := exists_step_assignFrom hy hx
    rw [hstep]
    exact .fits (s.memory.length_bytes_lt x) rfl (string?_set_self m hy (some copy)) hcopy.size
  | _ => cases hn

variable {r : StringSession × StringResult}

theorem Sized.fatal_iff (h : s.Sized step n r) :
    (∃ cause, r.2 = .fatal cause) ↔ UInt32.size ≤ n := by
  cases h with
  | fits hlt hfilled _ _ =>
    refine iff_of_false ?_ (Nat.not_le.2 hlt)
    rintro ⟨cause, rfl⟩
    cases hfilled
  | untouched hle _ => exact iff_of_true ⟨_, rfl⟩ hle
  | emptied hle _ _ _ => exact iff_of_true ⟨_, rfl⟩ hle

theorem Sized.exists_filled (h : s.Sized step n r) (hlt : n < UInt32.size) :
    ∃ i x, step.filled? r.2 = some i ∧ r.1.string? i = some x ∧ x.size.toNat = n := by
  cases h with
  | fits _ hfilled hx hsize => exact ⟨_, _, hfilled, hx, hsize⟩
  | untouched hle _ => exact absurd hlt (Nat.not_lt.2 hle)
  | emptied hle _ _ _ => exact absurd hlt (Nat.not_lt.2 hle)

theorem Sized.records_eq (h : s.Sized step n r) (hle : UInt32.size ≤ n) :
    r.2.records = [⟨.error, "HidlSupport", "string size can't exceed 2^32 bytes."⟩] := by
  cases h with
  | fits hlt _ _ _ => exact absurd hlt (Nat.not_lt.2 hle)
  | untouched _ _ => rfl
  | emptied _ _ _ _ => rfl

theorem Sized.eq_of_not_refills (h : s.Sized step n r) (hle : UInt32.size ≤ n)
    (hno : step.refills = false) : r.1 = s := by
  cases h with
  | fits hlt _ _ _ => exact absurd hlt (Nat.not_lt.2 hle)
  | untouched _ _ => rfl
  | emptied _ hyes _ _ => cases hno.symm.trans hyes

theorem Sized.exists_emptied (h : s.Sized step n r) (hle : UInt32.size ≤ n)
    (hyes : step.refills = true) : ∃ slot x, step.target? = some slot ∧ s.string? slot = some x ∧
      r.1 = ⟨s.memory.release x, s.strings.set slot (some .empty)⟩ := by
  cases h with
  | fits hlt _ _ _ => exact absurd hlt (Nat.not_lt.2 hle)
  | untouched _ hno => cases hno.symm.trans hyes
  | emptied _ _ ht hx => exact ⟨_, _, ht, hx, rfl⟩

/-- What is left of a string that was to be refilled: its block is freed, once, and the string is
empty, so that neither dropping it nor anything else frees a block again. -/
structure Emptied (s t : StringSession) (slot : Nat) (x : ByteString) : Prop where
  held : s.string? slot = some x
  empty : t.string? slot = some .empty
  releases : ∀ block, t.memory.heap.releases block =
    s.memory.heap.releases block + if x.owns = some block then 1 else 0
  freed : ∀ block ∈ x.owns, t.memory.heap.releases block = 1
  dropped : (t.step (.drop slot)).1.memory = t.memory
  later : ∀ steps block, (t.stepAll steps).memory.heap.releases block ≤ 1

theorem Sound.emptied (hs : s.Sound lent) (hx : s.string? slot = some x) :
    s.Emptied ⟨s.memory.release x, s.strings.set slot (some .empty)⟩ slot x := by
  have hchange : Change s ⟨s.memory.release x, s.strings.set slot (some .empty)⟩ lent :=
    hs.change_vacate hx (fun _ _ => rfl) (by simp)
  have hempty : string? ⟨s.memory.release x, s.strings.set slot (some .empty)⟩ slot =
      some .empty := string?_set_self _ hx _
  have hreleases := (Memory.change_release (hs.holds hx)).releases
  refine ⟨hx, hempty, hreleases, fun block ho => ?_, ?_, fun steps block => ?_⟩
  · have hlive := (s.memory.heap.live?_isSome_iff block).1 ((hs.holds hx).live_of_owns ho)
    rw [hreleases, hlive.2, if_pos (Option.mem_def.1 ho)]
  · rw [StringSession.step, withString_of hempty]
    rfl
  · exact (hchange.sound.stepAll steps).releases_le block

theorem lt_of_amount?_duplicate (hn : s.amount? (.duplicate slot) = some n) : n < UInt32.size := by
  obtain ⟨x, -, rfl⟩ := Option.map_eq_some_iff.1 hn
  exact s.memory.length_bytes_lt x

theorem not_poke_of_amount? (hn : s.amount? step = some n) (p : Pointer) (byte : UInt8) :
    step ≠ .poke p byte := by
  rintro rfl
  cases hn

/-- Main result: in every state that a run can reach, a step that is to give a string some number of
bytes is fatal exactly if that is 2^32 or more, and else the string counts just as many; strings
that there are can always be copied. A fatal step leaves one record and leaves the other strings
alone. It changes nothing at all unless it refills a string, which it has emptied by then. -/
theorem size_limit_of_run (before : List StringStep) (step : StringStep) (n : Nat) :
    let s := initial.stepAll before
    let r := s.step step
    s.Permits step → s.amount? step = some n →
      ((∃ cause, r.2 = .fatal cause) ↔ UInt32.size ≤ n) ∧
      (n < UInt32.size → ∃ i x, step.filled? r.2 = some i ∧ r.1.string? i = some x ∧
        x.size.toNat = n) ∧
      (∀ slot other, step = .duplicate slot ∨ step = .assignFrom slot other →
        n < UInt32.size) ∧
      (UInt32.size ≤ n →
        r.2.records = [⟨.error, "HidlSupport", "string size can't exceed 2^32 bytes."⟩] ∧
        (∀ i x, step.target? ≠ some i → s.string? i = some x →
          r.1.string? i = some x ∧ r.1.memory.bytes x = s.memory.bytes x) ∧
        (step.refills = false → r.1 = s) ∧
        (step.refills = true →
          ∃ slot x, step.target? = some slot ∧ s.Emptied r.1 slot x)) := by
  intro s r hpermits hn
  obtain ⟨lent, hs, hb⟩ := exists_sound_inBounds before
  have hsized : s.Sized step n r := sized_step hpermits hn
  refine ⟨hsized.fatal_iff, hsized.exists_filled, ?_, fun hle =>
    ⟨hsized.records_eq hle, fun i x ht hx => ?_, hsized.eq_of_not_refills hle, fun hyes => ?_⟩⟩
  · rintro slot other (rfl | rfl)
    · exact lt_of_amount?_duplicate hn
    · exact lt_of_amount?_duplicate hn
  · have hx' := (s.effect_step step).string?_of_ne ht hx
    exact ⟨hx', (hs.step_step step).bytes_kept hb hs (not_poke_of_amount? hn) hx hx'⟩
  · obtain ⟨slot, x, ht, hx, hr⟩ := hsized.exists_emptied hle hyes
    exact ⟨slot, x, ht, hr ▸ hs.emptied hx⟩

/-- A string of two bytes: one byte more than can be counted is assigned to it, or lent to it, and
then one byte is. -/
theorem size_limit_of_run_refilled :
    let s := initial.stepAll [.copy [1, 2], .makeBuffer [7, 8]]
    let tooMany : List UInt8 := .replicate UInt32.size 7
    ((s.step (.assign 0 tooMany)).2.records =
        [⟨.error, "HidlSupport", "string size can't exceed 2^32 bytes."⟩] ∧
      s.Emptied (s.step (.assign 0 tooMany)).1 0 ⟨.heap 0, 2, true⟩) ∧
    ((∃ cause, (s.step (.borrow 0 (some ⟨0, 0⟩) UInt32.size)).2 = .fatal cause) ∧
      (s.step (.borrow 0 (some ⟨0, 0⟩) UInt32.size)).1 = s) ∧
    ∃ x, (s.step (.borrow 0 (some ⟨0, 1⟩) 1)).1.string? 0 = some x ∧ x.size.toNat = 1 := by
  intro s tooMany
  have hrun := size_limit_of_run [.copy [1, 2], .makeBuffer [7, 8]]
  have hreaches : ∀ offset, s.Reaches (some ⟨0, offset⟩) := by
    rintro offset p ⟨⟩
    exact Nat.one_pos
  refine ⟨?_, ?_, ?_⟩
  · obtain ⟨-, -, -, hfatal⟩ :=
      hrun (.assign 0 tooMany) UInt32.size rfl (congrArg some List.length_replicate)
    obtain ⟨hrecords, -, -, hemptied⟩ := hfatal (Nat.le_refl _)
    obtain ⟨slot, x, ht, hx⟩ := hemptied rfl
    obtain rfl : 0 = slot := Option.some.inj ht
    obtain rfl : ⟨.heap 0, 2, true⟩ = x := Option.some.inj hx.held
    exact ⟨hrecords, hx⟩
  · obtain ⟨hiff, -, -, hfatal⟩ :=
      hrun (.borrow 0 (some ⟨0, 0⟩) UInt32.size) UInt32.size ⟨rfl, hreaches 0, by decide⟩ rfl
    exact ⟨hiff.2 (Nat.le_refl _), (hfatal (Nat.le_refl _)).2.2.1 rfl⟩
  · obtain ⟨-, hfits, -, -⟩ :=
      hrun (.borrow 0 (some ⟨0, 1⟩) 1) 1 ⟨rfl, hreaches 1, by decide⟩ rfl
    obtain ⟨i, x, hi, hx, hsize⟩ := hfits (by decide)
    obtain rfl : 0 = i := Option.some.inj hi
    exact ⟨x, hx, hsize⟩

end StringSession

end HalLink
