import HalLink.Proofs.ByteString.Contents
import HalLink.Proofs.Text.Utf8

set_option autoImplicit false

namespace HalLink

/-- The order of a dictionary: the first byte that differs decides, as an unsigned number, and a
proper start comes first. -/
inductive Precedes : List UInt8 → List UInt8 → Prop where
  | start (common : List UInt8) (b : UInt8) (rest : List UInt8) :
      Precedes common (common ++ b :: rest)
  | differs (common : List UInt8) {a b : UInt8} (as bs : List UInt8) :
      a.toNat < b.toNat → Precedes (common ++ a :: as) (common ++ b :: bs)

theorem Precedes.cons {as bs : List UInt8} (a : UInt8) (h : Precedes as bs) :
    Precedes (a :: as) (a :: bs) := by
  cases h with
  | start _ b rest => exact .start (a :: as) b rest
  | differs common as bs hlt => exact .differs (a :: common) as bs hlt

theorem compareBytes_eq_compare (as bs : List UInt8) : compareBytes as bs = compare as bs := by
  induction as generalizing bs with
  | nil => cases bs <;> rfl
  | cons a as ih =>
    cases bs with
    | nil => rfl
    | cons b bs => rw [compareBytes, ih, List.compare_cons_cons]

theorem compareBytes_append (common as bs : List UInt8) :
    compareBytes (common ++ as) (common ++ bs) = compareBytes as bs := by
  induction common with
  | nil => rfl
  | cons a common ih =>
    rw [List.cons_append, List.cons_append, compareBytes, ih, Std.compare_eq_iff_eq.2 rfl]
    rfl

theorem compareBytes_eq_lt_iff {as bs : List UInt8} :
    compareBytes as bs = .lt ↔ Precedes as bs := by
  constructor
  · intro h
    induction as generalizing bs with
    | nil =>
      cases bs with
      | nil => cases h
      | cons b bs => exact .start [] b bs
    | cons a as ih =>
      cases bs with
      | nil => cases h
      | cons b bs =>
        rw [compareBytes, Ordering.then_eq_lt] at h
        rcases h with h | ⟨heq, h⟩
        · exact .differs [] as bs (UInt8.lt_iff_toNat_lt.1 (Std.compare_eq_lt.1 h))
        · obtain rfl := Std.compare_eq_iff_eq.1 heq
          exact (ih h).cons a
  · intro h
    cases h with
    | start _ b rest =>
      have h := compareBytes_append as [] (b :: rest)
      rwa [List.append_nil] at h
    | differs common as bs hlt =>
      rw [compareBytes_append, compareBytes, Std.compare_eq_lt.2 (UInt8.lt_iff_toNat_lt.2 hlt)]
      rfl

namespace Memory

variable {m m' : Memory} {x y z : ByteString} {bytes : List UInt8}

theorem equalStrings_iff : m.equalStrings x y = true ↔ m.bytes x = m.bytes y := beq_iff_eq

theorem compareStrings_eq (m : Memory) (x y : ByteString) :
    m.compareStrings x y = compare (m.bytes x) (m.bytes y) := compareBytes_eq_compare _ _

theorem compareStrings_eq_eq_iff : m.compareStrings x y = .eq ↔ m.bytes x = m.bytes y := by
  rw [compareStrings_eq, Std.compare_eq_iff_eq]

theorem transCmp_compareStrings (m : Memory) : Std.TransCmp m.compareStrings where
  eq_swap {x y} := by
    rw [compareStrings_eq, compareStrings_eq]
    exact Std.OrientedCmp.eq_swap
  isLE_trans {x y z} := by
    rw [compareStrings_eq, compareStrings_eq, compareStrings_eq]
    exact Std.TransCmp.isLE_trans

/-- Two strings give everything that makes hashes the same to take in exactly if they hold the same
bytes. -/
theorem hash_eq_iff : (∀ (σ : Type) (hasher : Hasher σ) (state : σ),
    m.hash hasher x state = m.hash hasher y state) ↔ m.bytes x = m.bytes y := by
  constructor
  · intro h
    exact h (List UInt8) ⟨fun state _ => state, fun _ bytes => bytes⟩ []
  · intro h σ hasher state
    rw [hash, hash, h]

theorem equalStrings_of_copyOf (hx : m'.bytes x = m.bytes x) (hy : m.CopyOf bytes m' y) :
    m'.equalStrings x y = m.equalsBytes x bytes := by
  rw [equalStrings, hx, hy.bytes, equalsBytes]

end Memory

namespace StringSession

variable {s : StringSession} {i j : Nat} {x z : ByteString}

theorem step_compare {y : ByteString} (hx : s.string? i = some x) (hy : s.string? j = some y) :
    s.step (.compare i j) =
      (s, .compared (s.memory.equalStrings x y) (s.memory.compareStrings x y)) := by
  simp only [StringSession.step, withString_of hx, withString_of hy]

theorem step_equalsBytes (hx : s.string? i = some x) (bytes : List UInt8) :
    s.step (.equalsBytes i bytes) = (s, .equal (s.memory.equalsBytes x bytes)) := by
  simp only [StringSession.step, withString_of hx]

/-- Main result: whatever strings a run has left, and wherever their bytes are, they are equal, and
hashed alike, exactly if their bytes are, and their order is total and that of a dictionary. Bytes
and texts compare as strings made of them do. Copies, copies into other strings and moved strings
hold what their source held. -/
theorem comparison_of_run (steps : List StringStep) :
    let s := initial.stepAll steps
    let m := s.memory
    (∀ i j x y, s.string? i = some x → s.string? j = some y →
      s.step (.compare i j) = (s, .compared (m.equalStrings x y) (m.compareStrings x y)) ∧
      (m.equalStrings x y = true ↔ m.bytes x = m.bytes y) ∧
      (m.compareStrings x y = .eq ↔ m.bytes x = m.bytes y) ∧
      (m.compareStrings x y = .lt ↔ Precedes (m.bytes x) (m.bytes y)) ∧
      ((∀ (σ : Type) (hasher : Hasher σ) (state : σ),
        m.hash hasher x state = m.hash hasher y state) ↔ m.bytes x = m.bytes y)) ∧
    Std.TransCmp m.compareStrings ∧
    (∀ i x bytes, s.string? i = some x → bytes.length < UInt32.size →
      ∃ t equal order, s.step (.copy bytes) = (t, .created s.strings.length) ∧
        t.step (.compare i s.strings.length) = (t, .compared equal order) ∧
        s.step (.equalsBytes i bytes) = (s, .equal equal) ∧
        ∀ text, Utf8.encode text = bytes → s.step (.equalsText i text) = (s, .equal equal)) ∧
    ∀ i x, s.string? i = some x →
      (∃ t y samePlace, s.step (.duplicate i) = (t, .derived s.strings.length samePlace) ∧
        t.string? s.strings.length = some y ∧ t.memory.bytes y = m.bytes x) ∧
      (∀ j z, s.string? j = some z → ∃ t y, s.step (.assignFrom j i) = (t, .done) ∧
        t.string? j = some y ∧ t.memory.bytes y = m.bytes x) ∧
      ∃ t samePlace, s.step (.take i) = (t, .derived s.strings.length samePlace) ∧
        t.string? s.strings.length = some x ∧ t.memory.bytes x = m.bytes x := by
  intro s m
  obtain ⟨lent, hs, hb⟩ := exists_sound_inBounds steps
  refine ⟨fun i j x y hx hy => ?_, m.transCmp_compareStrings, fun i x bytes hx hlt => ?_,
    fun i x hx => ⟨?_, fun j z hz => ?_, ?_⟩⟩
  · exact ⟨step_compare hx hy, Memory.equalStrings_iff, Memory.compareStrings_eq_eq_iff,
      compareBytes_eq_lt_iff, Memory.hash_eq_iff⟩
  · obtain ⟨m', y, hstep, hy⟩ := s.exists_construct hlt
    have hx' := (string?_append_of_lt m' s.strings y (lt_of_string? hx)).trans hx
    have hy' := string?_append_self m' s.strings y
    have hbytes := hb.bytes_of_copyOf hs hx hy
    refine ⟨_, _, _, hstep, step_compare hx' hy', ?_, ?_⟩
    · rw [step_equalsBytes hx, Memory.equalStrings_of_copyOf hbytes hy]
    · rintro text rfl
      rw [Memory.equalStrings_of_copyOf hbytes hy]
      exact step_equalsBytes hx _
  · obtain ⟨m', y, hstep, hy⟩ := exists_step_duplicate hx
    exact ⟨_, y, _, hstep, string?_append_self m' s.strings y, hy.bytes⟩
  · obtain ⟨m', y, hstep, hy⟩ := exists_step_assignFrom hz hx
    exact ⟨_, y, hstep, string?_set_self m' hz (some y), hy.bytes⟩
  · have hmoved := (string?_step_take hx).1
    rw [step_take hx] at hmoved
    exact ⟨_, _, step_take hx, hmoved, rfl⟩

/-- A string that borrows a byte from the middle of a buffer beside a copy of it, and beside a
longer string that starts with the same byte. -/
theorem comparison_of_run_borrowed :
    let s := initial.stepAll [.makeBuffer [7, 200, 1], .create, .borrow 0 (some ⟨0, 1⟩) 1,
      .duplicate 0, .copy [200, 0]]
    s.step (.compare 0 1) = (s, .compared true .eq) ∧
    s.step (.compare 0 2) = (s, .compared false .lt) ∧
    (∃ t order, s.step (.copy [200]) = (t, .created 3) ∧
      t.step (.compare 0 3) = (t, .compared true order)) ∧
    ∃ t y, s.step (.assignFrom 2 0) = (t, .done) ∧ t.string? 2 = some y ∧
      t.memory.bytes y = [200] := by
  intro s
  obtain ⟨hpairs, -, hslices, hcopies⟩ := comparison_of_run [.makeBuffer [7, 200, 1], .create,
    .borrow 0 (some ⟨0, 1⟩) 1, .duplicate 0, .copy [200, 0]]
  let x : ByteString := ⟨.external ⟨0, 1⟩, 1, false⟩
  have hx : s.string? 0 = some x := rfl
  have hy : s.string? 1 = some ⟨.heap 0, 1, true⟩ := rfl
  have hz : s.string? 2 = some ⟨.heap 1, 2, true⟩ := rfl
  obtain ⟨hequal, -⟩ := hpairs 0 1 _ _ hx hy
  obtain ⟨hless, -⟩ := hpairs 0 2 _ _ hx hz
  obtain ⟨t, equal, order, hmade, hcompare, hanswer, -⟩ := hslices 0 x [200] hx (by decide)
  obtain rfl : true = equal := StringResult.equal.inj (congrArg Prod.snd hanswer)
  exact ⟨hequal, hless, ⟨t, order, hmade, hcompare⟩, (hcopies 0 x hx).2.1 2 _ hz⟩

end StringSession

end HalLink
