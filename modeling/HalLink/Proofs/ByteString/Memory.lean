import HalLink.ByteString.Basic
import HalLink.Proofs.Arena

set_option autoImplicit false

namespace HalLink

def ByteString.owns (x : ByteString) : Option Nat :=
  match x.owned, x.place with
  | true, .heap block => some block
  | _, _ => none

@[simp] theorem ByteString.owns_empty : ByteString.empty.owns = none := rfl

namespace Memory

/-- The representation of a string, given what was last lent to it: an empty string points at the
shared NUL, an owned one at a live block of its size and a NUL, and any other at what was lent. -/
structure Holds (m : Memory) (lent : Option (Pointer × Nat)) (x : ByteString) : Prop where
  size_lt : x.size.toNat < UInt32.size
  empty : x.size = 0 → x.place = .sentinel ∧ x.owned = false
  owned : x.owned = true → x.size ≠ 0 ∧ ∃ block content, x.place = .heap block ∧
    m.heap.live? block = some content ∧ content.length = x.size.toNat + 1 ∧
    content[x.size.toNat]? = some 0
  borrowed : x.owned = false → x.size ≠ 0 →
    ∃ p, x.place = .external p ∧ lent = some (p, x.size.toNat)

variable {m m' : Memory} {lent lent' : Option (Pointer × Nat)} {x : ByteString} {block : Nat}

theorem holds_empty (m : Memory) (lent : Option (Pointer × Nat)) : m.Holds lent .empty where
  size_lt := by simp [ByteString.empty]
  empty _ := ⟨rfl, rfl⟩
  owned h := by simp [ByteString.empty] at h
  borrowed _ h := absurd rfl h

theorem Holds.live_of_owns (h : m.Holds lent x) (ho : x.owns = some block) :
    (m.heap.live? block).isSome := by
  obtain ⟨place, size, owned⟩ := x
  cases owned with
  | false => simp [ByteString.owns] at ho
  | true =>
    obtain ⟨-, b, content, hplace, hlive, -⟩ := h.owned rfl
    obtain rfl : place = .heap b := hplace
    obtain rfl : b = block := by simpa [ByteString.owns] using ho
    exact Option.isSome_of_eq_some hlive

theorem Holds.congr (h : m.Holds lent x)
    (hlive : ∀ block ∈ x.owns, m'.heap.live? block = m.heap.live? block) : m'.Holds lent x where
  size_lt := h.size_lt
  empty := h.empty
  owned ho := by
    obtain ⟨hsize, block, content, hplace, hblock, hcontent⟩ := h.owned ho
    have howns : x.owns = some block := by simp [ByteString.owns, ho, hplace]
    exact ⟨hsize, block, content, hplace, (hlive block howns).trans hblock, hcontent⟩
  borrowed := h.borrowed

/-- What comes of copying bytes: nothing, the empty string, or a string with a block of its own. -/
inductive Copied (m : Memory) : Except Fatal (Memory × ByteString) → Prop where
  | fatal : Copied m (.error .stringSize)
  | empty : Copied m (.ok (m, .empty))
  | full {bytes : List UInt8} {size : UInt32} (hsize : size ≠ 0)
      (hlength : bytes.length = size.toNat) :
      Copied m (.ok ({ m with heap := (m.heap.alloc (bytes ++ [0])).1 },
        ⟨.heap m.heap.size, size, true⟩))

theorem copied_copy (m : Memory) (bytes : List UInt8) : m.Copied (m.copy bytes) := by
  by_cases hlt : bytes.length < UInt32.size
  · have hsize : (UInt32.ofNat bytes.length).toNat = bytes.length := by
      simpa [UInt32.size] using hlt
    by_cases hzero : UInt32.ofNat bytes.length = 0
    · have he : m.copy bytes = .ok (m, .empty) := by
        simp [copy, checkedSize, hlt, hzero, bind, Except.bind, pure, Except.pure]
      rw [he]
      exact .empty
    · have he : m.copy bytes = .ok ({ m with heap := (m.heap.alloc (bytes ++ [0])).1 },
          ⟨.heap m.heap.size, UInt32.ofNat bytes.length, true⟩) := by
        simp [copy, checkedSize, hlt, hzero, bind, Except.bind, pure, Except.pure, Arena.alloc,
          Arena.size]
      rw [he]
      exact .full hzero hsize.symm
  · have he : m.copy bytes = .error .stringSize := by
      simp [copy, checkedSize, hlt, bind, Except.bind]
    rw [he]
    exact .fatal

theorem copied_copyCString (m : Memory) (data : Option Place) :
    m.Copied (m.copyCString data) := by
  cases data with
  | none => exact .empty
  | some p => exact m.copied_copy _

theorem copied_copyParts (m : Memory) (data : Option Pointer) (length : Nat) :
    m.Copied (m.copyParts data length) := by
  simp only [copyParts, checkedSize]
  split
  · cases data with
    | none => exact .empty
    | some p => exact m.copied_copy _
  · exact .fatal

theorem holds_alloc (m : Memory) (lent : Option (Pointer × Nat)) {bytes : List UInt8}
    {size : UInt32} (hsize : size ≠ 0) (hlength : bytes.length = size.toNat) :
    Holds { m with heap := (m.heap.alloc (bytes ++ [0])).1 } lent
      ⟨.heap m.heap.size, size, true⟩ where
  size_lt := size.toNat_lt
  empty h := absurd h hsize
  owned _ := by
    refine ⟨hsize, m.heap.size, bytes ++ [0], rfl, ?_, ?_, ?_⟩
    · simp [Arena.live?_alloc]
    · simp [hlength]
    · simp [← hlength]
  borrowed h := by simp at h

theorem release_eq (m : Memory) (x : ByteString) :
    m.release x = { m with heap := (x.owns.map m.heap.release).getD m.heap } := by
  obtain ⟨place, size, owned⟩ := x
  cases owned <;> cases place <;> rfl

@[simp] theorem buffers_release (m : Memory) (x : ByteString) :
    (m.release x).buffers = m.buffers := by rw [release_eq]

theorem change_release (h : m.Holds lent x) :
    Arena.Change m.heap (m.release x).heap x.owns := by
  rw [release_eq]
  cases ho : x.owns with
  | none => exact .refl m.heap
  | some block =>
    obtain ⟨content, hlive⟩ := Option.isSome_iff_exists.1 (h.live_of_owns ho)
    exact .release hlive

theorem live?_release_iff (m : Memory) (x : ByteString) (block : Nat) :
    ((m.release x).heap.live? block).isSome ↔
      (m.heap.live? block).isSome ∧ x.owns ≠ some block := by
  rw [release_eq]
  cases ho : x.owns with
  | none => simp
  | some b =>
    simp only [Option.map_some, Option.getD_some, Arena.live?_release]
    by_cases he : block = b
    · simp [he]
    · simp [he, Ne.symm he]

theorem checkedSize_of_lt {length : Nat} (h : length < UInt32.size) :
    ∃ size, checkedSize length = .ok size ∧ size.toNat = length :=
  ⟨.ofNat length, by rw [checkedSize, if_pos h], by simpa [UInt32.size] using h⟩

theorem checkedSize_of_le {length : Nat} (h : UInt32.size ≤ length) :
    checkedSize length = .error .stringSize := by rw [checkedSize, if_neg (Nat.not_lt.2 h)]

theorem length_bytes_le (m : Memory) (x : ByteString) : (m.bytes x).length ≤ x.size.toNat :=
  List.length_take_le _ _

theorem length_bytes_lt (m : Memory) (x : ByteString) : (m.bytes x).length < UInt32.size :=
  Nat.lt_of_le_of_lt (m.length_bytes_le x) x.size.toNat_lt

/-- A string made of these bytes: it counts them, a NUL follows them, without any it is the empty
string, and nothing else in memory has changed. -/
structure CopyOf (m : Memory) (bytes : List UInt8) (m' : Memory) (x : ByteString) : Prop where
  size : x.size.toNat = bytes.length
  content : m'.content x.place = bytes ++ [0]
  empty : bytes = [] → x = .empty
  change : Arena.Change m.heap m'.heap none
  buffers : m'.buffers = m.buffers

theorem copy_of_le (m : Memory) {bytes : List UInt8} (h : UInt32.size ≤ bytes.length) :
    m.copy bytes = .error .stringSize := by
  rw [copy, checkedSize_of_le h]
  rfl

theorem exists_copy (m : Memory) {bytes : List UInt8} (h : bytes.length < UInt32.size) :
    ∃ m' x, m.copy bytes = .ok (m', x) ∧ m.CopyOf bytes m' x := by
  obtain ⟨size, hchecked, hsize⟩ := checkedSize_of_lt h
  by_cases hzero : size = 0
  · obtain rfl : bytes = [] := List.eq_nil_of_length_eq_zero (by rw [← hsize, hzero]; rfl)
    exact ⟨m, .empty, by rw [copy, hchecked]; simp [bind, Except.bind, hzero, pure, Except.pure],
      rfl, rfl, fun _ => rfl, .refl m.heap, rfl⟩
  · refine ⟨{ m with heap := (m.heap.alloc (bytes ++ [0])).1 }, ⟨.heap m.heap.size, size, true⟩,
      ?_, hsize, ?_, fun hnil => ?_, .alloc _ _, rfl⟩
    · rw [copy, hchecked]
      simp [bind, Except.bind, hzero, pure, Except.pure, Arena.alloc, Arena.size]
    · simp [content, Arena.live?_alloc]
    · refine absurd (UInt32.toNat_inj.1 ?_) hzero
      rw [hsize, hnil]
      rfl

theorem copyParts_of_lt (m : Memory) (data : Option Pointer) {length : Nat}
    (h : length < UInt32.size) :
    m.copyParts data length = m.copy (data.elim [] fun p => (m.bytesFrom p).take length) := by
  obtain ⟨size, hchecked, -⟩ := checkedSize_of_lt h
  unfold copyParts
  rw [hchecked]
  cases data <;> rfl

theorem copyParts_of_le (m : Memory) (data : Option Pointer) {length : Nat}
    (h : UInt32.size ≤ length) : m.copyParts data length = .error .stringSize := by
  unfold copyParts
  rw [checkedSize_of_le h]
  rfl

theorem CopyOf.bytes {bytes : List UInt8} (h : m.CopyOf bytes m' x) : m'.bytes x = bytes := by
  rw [Memory.bytes, h.content, h.size, List.take_left]

theorem CopyOf.content_eq {bytes : List UInt8} {place : Place} (h : m.CopyOf bytes m' x)
    (hread : m.content place ≠ []) : m'.content place = m.content place := by
  cases place with
  | sentinel => rfl
  | external p => simp only [Memory.content, bytesFrom, h.buffers]
  | heap block =>
    cases hlive : m.heap.live? block with
    | none => simp [Memory.content, hlive] at hread
    | some bytes => simp only [Memory.content, hlive, h.change.live_of_none hlive]

end Memory

end HalLink
