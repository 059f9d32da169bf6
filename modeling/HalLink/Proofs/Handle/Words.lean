import HalLink.Proofs.Handle.Release

/-!
Records as words in memory. A record is one block: a header of three words, and right behind it the
payload. The operations work out from the counts in the header where the words are that they read
and write, and an access outside of a block fails. On records that are laid out none does, and they
come to the same as the operations on records.
-/

set_option autoImplicit false

namespace HalLink

structure WordHeap where
  table : DescriptorTable
  block? : Nat → Option (List Int)

namespace WordHeap

/-- Where the payload begins. The words before it are the stamp, the count of descriptors and the
count of integers. -/
def payload : Nat := 3

def put (m : WordHeap) (p : Nat) (words? : Option (List Int)) : WordHeap :=
  { m with block? := fun q => if q = p then words? else m.block? q }

def load? (m : WordHeap) (p offset : Nat) : Option Int := (m.block? p).bind (·[offset]?)

def store? (m : WordHeap) (p offset : Nat) (word : Int) : Option WordHeap := do
  let words ← m.block? p
  if offset < words.length then some (m.put p (some (words.set offset word))) else none

def loadAll? (m : WordHeap) (p : Nat) : Nat → Nat → Option (List Int)
  | _, 0 => some []
  | offset, count + 1 => do
    let word ← m.load? p offset
    let rest ← m.loadAll? p (offset + 1) count
    some (word :: rest)

def storeAll? (m : WordHeap) (p : Nat) : Nat → List Int → Option WordHeap
  | _, [] => some m
  | offset, word :: rest => do
    let m ← m.store? p offset word
    m.storeAll? p (offset + 1) rest

def copyAll? (m : WordHeap) (source copy offset count : Nat) : Option WordHeap := do
  let words ← m.loadAll? source offset count
  m.storeAll? copy offset words

def fds? (m : WordHeap) (p : Nat) : Option (List Int) := do
  let fds ← m.load? p 1
  m.loadAll? p payload fds.toNat

def ints? (m : WordHeap) (p : Nat) : Option (List Int) := do
  let fds ← m.load? p 1
  let ints ← m.load? p 2
  m.loadAll? p (payload + fds.toNat) ints.toNat

def setFds? (m : WordHeap) (p first : Nat) (values : List Int) :
    Option (WordHeap × HandleResult) := do
  let fds ← m.load? p 1
  if first + values.length ≤ fds.toNat then
    (m.storeAll? p (payload + first) values).map (·, .done)
  else some (m, .outOfRange fds.toNat)

def setInts? (m : WordHeap) (p first : Nat) (values : List Int) :
    Option (WordHeap × HandleResult) := do
  let fds ← m.load? p 1
  let ints ← m.load? p 2
  if first + values.length ≤ ints.toNat then
    (m.storeAll? p (payload + fds.toNat + first) values).map (·, .done)
  else some (m, .outOfRange ints.toNat)

def create? (m : WordHeap) (p : Nat) (fds ints : Int) : Option (WordHeap × Option Nat) :=
  if 0 ≤ fds ∧ fds ≤ HandleRecord.maxFds ∧ 0 ≤ ints ∧ ints ≤ HandleRecord.maxInts then do
    let m := m.put p (some (List.replicate (payload + (fds + ints).toNat) 0))
    let m ← m.storeAll? p 0 [HandleRecord.stamp, fds, ints]
    some (m, some p)
  else some (m, none)

def close? (m : WordHeap) (p : Nat) : Option (WordHeap × Int) := do
  let fds ← m.fds? p
  some ({ m with table := m.table.closeAll fds }, 0)

def delete? (m : WordHeap) (p : Nat) : Option (WordHeap × Int) := do
  let version ← m.load? p 0
  if version = HandleRecord.stamp then some (m.put p none, 0)
  else some (m, RecordStore.invalidArgument)

def giveUp? (m : WordHeap) (p : Nat) : Option WordHeap := do
  let (m, _) ← m.close? p
  let (m, _) ← m.delete? p
  some m

/-- Duplicates descriptors from slot `k` on. The first that cannot be duplicated makes the copy
shrink to the slots before it; then the copy is closed and deleted. -/
def fillSlots? (m : WordHeap) (source copy : Nat) : Nat → Nat → Option (WordHeap × Bool)
  | _, 0 => some (m, true)
  | k, count + 1 => do
    let fd ← m.load? source (payload + k)
    match m.table.dup fd with
    | none =>
      let m ← m.store? copy 1 k
      let m ← m.giveUp? copy
      some (m, false)
    | some (table, new) =>
      let m ← { m with table }.store? copy (payload + k) new
      m.fillSlots? source copy (k + 1) count

def duplicate? (m : WordHeap) (source p : Nat) : Option (WordHeap × Option Nat) := do
  let fds ← m.load? source 1
  let ints ← m.load? source 2
  match ← m.create? p fds ints with
  | (m, none) => some (m, none)
  | (m, some copy) =>
    match ← m.fillSlots? source copy 0 fds.toNat with
    | (m, false) => some (m, none)
    | (m, true) =>
      let m ← m.copyAll? source copy (payload + fds.toNat) ints.toNat
      some (m, some copy)

/-- The steps on records; the block of a new record lies at address `p`. -/
def step? (m : WordHeap) (p : Nat) : HandleStep → Option (WordHeap × HandleResult)
  | .create fds ints => (m.create? p fds ints).map fun (m, made) => (m, .record made)
  | .setFds i first values => m.setFds? i first values
  | .setInts i first values => m.setInts? i first values
  | .duplicateRecord none => some (m, .record none)
  | .duplicateRecord (some i) => (m.duplicate? i p).map fun (m, made) => (m, .record made)
  | .closeRecord none => some (m, .status RecordStore.invalidArgument)
  | .closeRecord (some i) => (m.close? i).map fun (m, code) => (m, .status code)
  | .deleteRecord none => some (m, .status 0)
  | .deleteRecord (some i) => (m.delete? i).map fun (m, code) => (m, .status code)
  | .showRecord i => do
    let version ← m.load? i 0
    let fds ← m.fds? i
    let ints ← m.ints? i
    some (m, .shownRecord ⟨version, fds.length, ints.length, fds ++ ints⟩)
  | _ => none

@[simp] theorem put_put (m : WordHeap) (p : Nat) (words? words?' : Option (List Int)) :
    (m.put p words?).put p words?' = m.put p words?' := by
  refine congrArg (WordHeap.mk m.table) (funext fun q => ?_)
  by_cases hq : q = p
  · simp [hq]
  · simp [put, hq]

@[simp] theorem block?_put (m : WordHeap) (p : Nat) (words? : Option (List Int)) :
    (m.put p words?).block? p = words? := if_pos rfl

theorem store?_put (m : WordHeap) (p : Nat) {words : List Int} {offset : Nat}
    (h : offset < words.length) (word : Int) :
    (m.put p (some words)).store? p offset word =
      some (m.put p (some (words.set offset word))) := by
  simp [store?, h]

theorem storeAll?_header (m : WordHeap) (p : Nat) (version fds ints : Int) (count : Nat) :
    (m.put p (some (List.replicate (payload + count) 0))).storeAll? p 0 [version, fds, ints] =
      some (m.put p (some ([version, fds, ints] ++ List.replicate count 0))) := by
  have hzeros : List.replicate (payload + count) (0 : Int) =
      [0, 0, 0] ++ List.replicate count 0 := by
    rw [Nat.add_comm]
    rfl
  simp [storeAll?, hzeros, store?_put]

end WordHeap

namespace HandleRecord

def layout (r : HandleRecord) : List Int := [r.version, r.fdCount, r.intCount] ++ r.words

variable {r : HandleRecord}

theorem LaidOut.fdCount_le_length (h : r.LaidOut) : r.fdCount ≤ r.words.length := by
  rw [h.length_words]
  exact Nat.le_add_right _ _

theorem LaidOut.fds_within (h : r.LaidOut) {first count : Nat} (hfits : first + count ≤ r.fdCount) :
    first + count ≤ r.words.length := Nat.le_trans hfits h.fdCount_le_length

theorem LaidOut.ints_within (h : r.LaidOut) {first count : Nat}
    (hfits : first + count ≤ r.intCount) : r.fdCount + first + count ≤ r.words.length := by
  rw [h.length_words, Nat.add_assoc]
  exact Nat.add_le_add_left hfits r.fdCount

theorem LaidOut.fds_append_ints (h : r.LaidOut) : r.fds ++ r.ints = r.words := by
  have hints : (r.words.drop r.fdCount).take r.intCount = r.words.drop r.fdCount :=
    List.take_of_length_le (by simp [h.length_words])
  rw [fds, ints, hints, List.take_append_drop]

theorem length_layout (r : HandleRecord) :
    r.layout.length = WordHeap.payload + r.words.length := by
  simp [layout, WordHeap.payload]
  omega

theorem layout_payload (r : HandleRecord) (k : Nat) :
    r.layout[WordHeap.payload + k]? = r.words[k]? := by
  rw [Nat.add_comm]
  rfl

theorem layout_setWord (r : HandleRecord) (k : Nat) (word : Int) :
    (r.setWord k word).layout = r.layout.set (WordHeap.payload + k) word := by
  rw [Nat.add_comm]
  rfl

end HandleRecord

namespace RecordStore

def update (s : RecordStore) (i : Nat) (f : HandleRecord → HandleRecord) : RecordStore :=
  { s with records := s.records.update i f }

def toWords (s : RecordStore) : WordHeap :=
  ⟨s.table, fun i => (s.record? i).map HandleRecord.layout⟩

variable {s : RecordStore} {i k : Nat} {r : HandleRecord}

theorem record?_update (s : RecordStore) (i : Nat) (f : HandleRecord → HandleRecord) (j : Nat) :
    (s.update i f).record? j = if j = i then (s.record? j).map f else s.record? j :=
  s.records.live?_update i f j

theorem record?_update_self (hr : s.record? i = some r) (f : HandleRecord → HandleRecord) :
    (s.update i f).record? i = some (f r) := by
  rw [record?_update, if_pos rfl, hr]
  rfl

theorem record?_update_of_ne {j : Nat} (hr : s.record? j = some r) (hne : j ≠ i)
    (f : HandleRecord → HandleRecord) : (s.update i f).record? j = some r := by
  rw [record?_update, if_neg hne, hr]

theorem update_update (s : RecordStore) (i : Nat) (f g : HandleRecord → HandleRecord) :
    (s.update i f).update i g = s.update i (fun r => g (f r)) := by
  simp only [update, Arena.update, List.modify_modify_eq]
  rfl

theorem toWords_update (hr : s.record? i = some r) (f : HandleRecord → HandleRecord) :
    (s.update i f).toWords = s.toWords.put i (some (f r).layout) := by
  refine congrArg (WordHeap.mk s.table) (funext fun j => ?_)
  simp only [record?_update, toWords]
  by_cases hj : j = i
  · subst hj
    simp [hr]
  · simp [hj]

theorem toWords_add (s : RecordStore) (r : HandleRecord) :
    (s.add r).1.toWords = s.toWords.put s.records.size (some r.layout) := by
  refine congrArg (WordHeap.mk s.table) (funext fun j => ?_)
  simp only [record?_add, toWords]
  by_cases hj : j = s.records.size
  · simp [hj]
  · simp [hj]

theorem toWords_release (s : RecordStore) (i : Nat) :
    toWords { s with records := s.records.release i } = s.toWords.put i none := by
  refine congrArg (WordHeap.mk s.table) (funext fun j => ?_)
  simp only [record?, Arena.live?_release, toWords]
  by_cases hj : j = i
  · simp [hj]
  · simp [hj]

theorem toWords_eq_of_alike {s' : RecordStore} (h : s.Alike s') : s.toWords = s'.toWords := by
  obtain ⟨htable, hrecords⟩ := h
  simp only [toWords, htable, funext hrecords]

theorem load?_eq (hr : s.record? i = some r) (offset : Nat) :
    s.toWords.load? i offset = r.layout[offset]? := by
  simp [WordHeap.load?, toWords, hr]

theorem load?_version (hr : s.record? i = some r) : s.toWords.load? i 0 = some r.version :=
  load?_eq hr 0

theorem load?_fdCount (hr : s.record? i = some r) : s.toWords.load? i 1 = some (r.fdCount : Int) :=
  load?_eq hr 1

theorem load?_intCount (hr : s.record? i = some r) :
    s.toWords.load? i 2 = some (r.intCount : Int) := load?_eq hr 2

theorem load?_word (hr : s.record? i = some r) (hk : k < r.words.length) :
    s.toWords.load? i (WordHeap.payload + k) = some r.words[k] := by
  rw [load?_eq hr, r.layout_payload, List.getElem?_eq_getElem hk]

theorem loadAll?_words (hr : s.record? i = some r) (k count : Nat)
    (hk : k + count ≤ r.words.length) :
    s.toWords.loadAll? i (WordHeap.payload + k) count = some ((r.words.drop k).take count) := by
  induction count generalizing k with
  | zero => simp [WordHeap.loadAll?]
  | succ count ih =>
    have hlt : k < r.words.length := by omega
    have hrest := ih (k + 1) (by omega)
    rw [← Nat.add_assoc] at hrest
    rw [List.drop_eq_getElem_cons hlt, List.take_succ_cons]
    simp [WordHeap.loadAll?, load?_word hr hlt, hrest]

theorem fds?_eq (hr : s.record? i = some r) (h : r.fdCount ≤ r.words.length) :
    s.toWords.fds? i = some r.fds := by
  have hwords := loadAll?_words hr 0 r.fdCount (by omega)
  rw [List.drop_zero] at hwords
  simp only [WordHeap.fds?, load?_fdCount hr]
  exact hwords

theorem ints?_eq (hr : s.record? i = some r) (h : r.LaidOut) :
    s.toWords.ints? i = some r.ints := by
  have hwords := loadAll?_words hr r.fdCount r.intCount
    (Nat.le_of_eq h.length_words.symm)
  simp only [WordHeap.ints?, load?_fdCount hr, load?_intCount hr]
  exact hwords

theorem store?_eq (hr : s.record? i = some r) {offset : Nat} (h : offset < r.layout.length)
    (word : Int) :
    s.toWords.store? i offset word = some (s.toWords.put i (some (r.layout.set offset word))) := by
  simp [WordHeap.store?, toWords, hr, h]

theorem store?_word (hr : s.record? i = some r) (hk : k < r.words.length) (word : Int) :
    s.toWords.store? i (WordHeap.payload + k) word =
      some (s.update i (·.setWord k word)).toWords := by
  rw [store?_eq hr (by rw [r.length_layout]; omega), toWords_update hr, r.layout_setWord]

theorem store?_fdCount (hr : s.record? i = some r) (k : Nat) :
    s.toWords.store? i 1 k = some (s.update i ({ · with fdCount := k })).toWords := by
  rw [store?_eq hr (by simp [HandleRecord.layout]), toWords_update hr]
  rfl

theorem storeAll?_words (hr : s.record? i = some r) (k : Nat) (values : List Int)
    (hk : k + values.length ≤ r.words.length) :
    s.toWords.storeAll? i (WordHeap.payload + k) values =
      some (s.update i (·.setWords k values)).toWords := by
  induction values generalizing s r k with
  | nil =>
    have hsame : s.update i (·.setWords k []) = s := congrArg (RecordStore.mk s.table)
      (congrArg Arena.mk (List.modify_id i s.records.blocks))
    rw [hsame]
    rfl
  | cons word rest ih =>
    rw [List.length_cons] at hk
    have hrest := ih (record?_update_self hr (·.setWord k word)) (k + 1)
      (by simp [HandleRecord.setWord]; omega)
    rw [update_update] at hrest
    simp only [WordHeap.storeAll?, store?_word hr (by omega : k < r.words.length)]
    exact hrest

theorem create?_eq (s : RecordStore) (fds ints : Int) :
    s.toWords.create? s.records.size fds ints =
      some ((s.create fds ints).1.toWords, (s.create fds ints).2) := by
  by_cases hcounts : 0 ≤ fds ∧ fds ≤ HandleRecord.maxFds ∧ 0 ≤ ints ∧ ints ≤ HandleRecord.maxInts
  · obtain ⟨n, rfl⟩ := Int.eq_ofNat_of_zero_le hcounts.1
    obtain ⟨m, rfl⟩ := Int.eq_ofNat_of_zero_le hcounts.2.2.1
    have hz : HandleRecord.zeroed? n m =
        some ⟨HandleRecord.stamp, n, m, List.replicate (n + m) 0⟩ := if_pos hcounts
    have hheader := s.toWords.storeAll?_header s.records.size HandleRecord.stamp n m (n + m)
    have hcount : ((n : Int) + m).toNat = n + m := rfl
    simp only [WordHeap.create?, if_pos hcounts, create, hz, hcount, hheader]
    exact congrArg (fun words => some (words, some s.records.size))
      (s.toWords_add ⟨HandleRecord.stamp, n, m, List.replicate (n + m) 0⟩).symm
  · simp [WordHeap.create?, create, HandleRecord.zeroed?, hcounts]

theorem close?_eq (hr : s.record? i = some r) (h : r.fdCount ≤ r.words.length) :
    s.toWords.close? i = some ((s.close (some i)).1.toWords, (s.close (some i)).2) := by
  rw [close_some hr]
  simp only [WordHeap.close?, fds?_eq hr h]
  rfl

theorem delete?_eq (hr : s.record? i = some r) :
    s.toWords.delete? i = some ((s.delete (some i)).1.toWords, (s.delete (some i)).2) := by
  by_cases hversion : r.version = HandleRecord.stamp
  · simp [WordHeap.delete?, load?_version hr, delete, hr, hversion, toWords_release]
  · simp [WordHeap.delete?, load?_version hr, delete, hr, hversion]

theorem giveUp?_eq (hr : s.record? i = some r) (h : r.fdCount ≤ r.words.length) :
    s.toWords.giveUp? i = some (s.giveUp (some i)).toWords := by
  have hclosed : (s.close (some i)).1.record? i = some r := by rwa [close_some hr]
  simp [WordHeap.giveUp?, close?_eq hr h, delete?_eq hclosed, giveUp]

/-- The loop over the slots of a copy. It reads the source and writes to the copy alone, so it keeps
within the two blocks. -/
theorem fillSlots?_eq {source copy : Nat} {c : HandleRecord} (k count : Nat) (hne : source ≠ copy)
    (hr : s.record? source = some r) (hc : s.record? copy = some c)
    (hsource : k + count ≤ r.words.length) (hcopy : k + count ≤ c.words.length) :
    s.toWords.fillSlots? source copy k count =
      some ((s.fillSlots copy k ((r.words.drop k).take count)).1.toWords,
        (s.fillSlots copy k ((r.words.drop k).take count)).2) := by
  induction count generalizing s c k with
  | zero => simp [WordHeap.fillSlots?, fillSlots]
  | succ count ih =>
    have hk : k < r.words.length := by omega
    have htable : s.toWords.table = s.table := rfl
    rw [List.drop_eq_getElem_cons hk, List.take_succ_cons]
    simp only [WordHeap.fillSlots?, load?_word hr hk, fillSlots, Option.bind_eq_bind,
      Option.bind_some, htable]
    cases hd : s.table.dup r.words[k] with
    | none =>
      have hcut := record?_update_self hc ({ · with fdCount := k })
      have hgiven := giveUp?_eq hcut (Nat.le_trans (Nat.le_add_right k _) hcopy)
      simp only [store?_fdCount hc, hgiven, Option.bind_some]
      rfl
    | some opened =>
      obtain ⟨table, new⟩ := opened
      have hc' : record? { s with table } copy = some c := hc
      have hstore := store?_word hc' (by omega : k < c.words.length) new
      have hrest := ih (s := update { s with table } copy (·.setWord k new)) (k + 1)
        (record?_update_of_ne hr hne _) (record?_update_self hc' _) (by omega)
        (by simp [HandleRecord.setWord]; omega)
      exact (congrArg (Option.bind · _) hstore).trans hrest

theorem copyAll?_filling {made : List Int} (table : DescriptorTable) (hr : s.record? i = some r)
    (h : r.LaidOut) (hmade : made.length = r.fdCount) :
    (add { s with table } (r.filling made)).1.toWords.copyAll? i s.records.size
        (WordHeap.payload + r.fdCount) r.intCount =
      some (add { s with table } (r.copyWith made)).1.toWords := by
  have hsource : (add { s with table } (r.filling made)).1.record? i = some r :=
    (Change.add { s with table } _).records.live_of_none hr
  have hcopy : (add { s with table } (r.filling made)).1.record? s.records.size =
      some (r.filling made) := (record?_add _ _ _).trans (if_pos rfl)
  have hload := loadAll?_words hsource r.fdCount r.intCount
    (Nat.le_of_eq h.length_words.symm)
  have hstore := storeAll?_words hcopy r.fdCount r.ints
    (by simp [HandleRecord.filling, h.length_ints, hmade])
  have hset := update_add { s with table } (r.filling made) (·.setWords r.fdCount r.ints)
  rw [HandleRecord.setWords_filling h hmade] at hset
  rw [WordHeap.copyAll?, hload]
  exact hstore.trans (congrArg (fun s' => some (toWords s')) hset)

/-- The slots of a new copy are filled as far as that goes. If it does not go to the end, all is as
it was before the copy was created. -/
theorem fillSlots?_filling {made : List Int} {table : DescriptorTable} (hr : s.record? i = some r)
    (h : r.LaidOut) (hd : s.table.dupWhile r.fds = (table, made)) :
    (s.add (r.filling [])).1.toWords.fillSlots? i s.records.size 0 r.fdCount =
      if made.length = r.fds.length then
        some ((add { s with table } (r.filling made)).1.toWords, true)
      else some (s.toWords, false) := by
  have hnew : (s.add (r.filling [])).1.record? s.records.size = some (r.filling []) :=
    (s.record?_add _ _).trans (if_pos rfl)
  have hloop := fillSlots?_eq 0 r.fdCount
    (Nat.ne_of_lt (Arena.lt_size_of_live? hr)) ((Change.add s _).records.live_of_none hr) hnew
    ((Nat.zero_add r.fdCount).symm ▸ h.fdCount_le_length) (by simp [HandleRecord.filling])
  have hslots : (r.words.drop 0).take r.fdCount = r.fds := rfl
  have hfill := s.fillSlots_filling (r := r) [] r.fds (by simp [h.length_fds])
  simp only [hd, List.nil_append, List.length_nil, Nat.zero_add] at hfill
  rw [hloop, hslots, hfill]
  by_cases hlength : made.length = r.fds.length
  · rw [if_pos hlength, if_pos hlength]
  · have hclose := s.table.closeAll_dupWhile r.fds
    rw [hd] at hclose
    have hundone : (add { s with table } (r.cut made)).1.giveUp (some s.records.size) |>.Alike s :=
      (undoable_add rfl (by rw [HandleRecord.fds_cut, hclose])).giveUp
    rw [if_neg hlength, if_neg hlength, ← toWords_eq_of_alike hundone]

theorem duplicate?_eq (hr : s.record? i = some r) (h : r.LaidOut) :
    s.toWords.duplicate? i s.records.size =
      some ((s.duplicate (some i)).1.toWords, (s.duplicate (some i)).2) := by
  have hcreate : s.toWords.create? s.records.size r.fdCount r.intCount =
      some ((s.add (r.filling [])).1.toWords, some s.records.size) := by
    rw [create?_eq, create, h.zeroed?_eq]
    rfl
  cases hd : s.table.dupWhile r.fds with
  | mk table made =>
    have hfill := fillSlots?_filling hr h hd
    simp only [WordHeap.duplicate?, load?_fdCount hr, load?_intCount hr, hcreate, hfill,
      duplicate_eq hr hd, Option.bind_eq_bind, Option.bind_some, Int.toNat_natCast]
    by_cases hlength : made.length = r.fds.length
    · have hcopied := copyAll?_filling table hr h (hlength.trans h.length_fds)
      simp only [if_pos hlength, hcopied, Option.bind_some]
    · simp only [if_neg hlength, Option.bind_some]

end RecordStore

namespace HandleSession

variable {s : HandleSession} {i : Nat} {r : HandleRecord}

theorem map_storeAll?_eq (hr : s.store.record? i = some r) {k : Nat} {values : List Int}
    (h : k + values.length ≤ r.words.length) (slots : Nat) :
    (s.store.toWords.storeAll? i (WordHeap.payload + k) values).map (·, HandleResult.done) =
      some ((s.write i slots (some (r.setWords k values))).1.store.toWords, .done) := by
  have hwritten := RecordStore.toWords_update hr (fun _ => r.setWords k values)
  rw [RecordStore.storeAll?_words hr k values h, RecordStore.toWords_update hr, ← hwritten]
  rfl

theorem setFds?_eq (hr : s.store.record? i = some r) (h : r.LaidOut) (first : Nat)
    (values : List Int) :
    s.store.toWords.setFds? i first values =
      some ((s.step (.setFds i first values)).1.store.toWords,
        (s.step (.setFds i first values)).2) := by
  simp only [WordHeap.setFds?, RecordStore.load?_fdCount hr, Option.bind_eq_bind, Option.bind_some,
    Int.toNat_natCast, step, withRecord, hr, HandleRecord.setFds?]
  by_cases hfits : first + values.length ≤ r.fdCount
  · rw [if_pos hfits, if_pos hfits, map_storeAll?_eq hr (h.fds_within hfits) r.fdCount]
    rfl
  · rw [if_neg hfits, if_neg hfits]
    rfl

theorem setInts?_eq (hr : s.store.record? i = some r) (h : r.LaidOut) (first : Nat)
    (values : List Int) :
    s.store.toWords.setInts? i first values =
      some ((s.step (.setInts i first values)).1.store.toWords,
        (s.step (.setInts i first values)).2) := by
  simp only [WordHeap.setInts?, RecordStore.load?_fdCount hr, RecordStore.load?_intCount hr,
    Option.bind_eq_bind, Option.bind_some, Int.toNat_natCast, step, withRecord, hr,
    HandleRecord.setInts?]
  by_cases hfits : first + values.length ≤ r.intCount
  · rw [if_pos hfits, if_pos hfits, Nat.add_assoc,
      map_storeAll?_eq hr (h.ints_within hfits) r.intCount]
    rfl
  · rw [if_neg hfits, if_neg hfits]
    rfl

def UsesRecords (s : HandleSession) : HandleStep → Prop
  | .create _ _ => True
  | .setFds i _ _ | .setInts i _ _ | .showRecord i => (s.store.record? i).isSome
  | .duplicateRecord record | .closeRecord record | .deleteRecord record =>
    s.isPointer record = true
  | _ => False

theorem showRecord_eq (hr : s.store.record? i = some r) (h : r.LaidOut) :
    s.store.toWords.step? s.store.records.size (.showRecord i) =
      some ((s.step (.showRecord i)).1.store.toWords, (s.step (.showRecord i)).2) := by
  have hfds := RecordStore.fds?_eq hr h.fdCount_le_length
  simp only [WordHeap.step?, RecordStore.load?_version hr, hfds, RecordStore.ints?_eq hr h,
    Option.bind_eq_bind, Option.bind_some, h.length_fds, h.length_ints, h.fds_append_ints,
    step, withRecord, hr]

theorem step?_eq (hlaid : ∀ i r, s.store.record? i = some r → r.LaidOut) {step : HandleStep}
    (h : s.UsesRecords step) :
    s.store.toWords.step? s.store.records.size step =
      some ((s.step step).1.store.toWords, (s.step step).2) := by
  cases step with
  | create fds ints =>
    simp only [WordHeap.step?, RecordStore.create?_eq]
    rfl
  | setFds i first values =>
    obtain ⟨r, hr⟩ := Option.isSome_iff_exists.1 h
    exact setFds?_eq hr (hlaid i r hr) first values
  | setInts i first values =>
    obtain ⟨r, hr⟩ := Option.isSome_iff_exists.1 h
    exact setInts?_eq hr (hlaid i r hr) first values
  | duplicateRecord record =>
    cases record with
    | none => rfl
    | some i =>
      obtain ⟨r, hr⟩ := Option.isSome_iff_exists.1 h
      simp only [WordHeap.step?, RecordStore.duplicate?_eq hr (hlaid i r hr), HandleSession.step,
        withPointer_of h]
      rfl
  | closeRecord record =>
    cases record with
    | none => rfl
    | some i =>
      obtain ⟨r, hr⟩ := Option.isSome_iff_exists.1 h
      have hclosed := RecordStore.close?_eq hr (hlaid i r hr).fdCount_le_length
      simp only [WordHeap.step?, hclosed, HandleSession.step, withPointer_of h]
      rfl
  | deleteRecord record =>
    cases record with
    | none => rfl
    | some i =>
      obtain ⟨r, hr⟩ := Option.isSome_iff_exists.1 h
      simp only [WordHeap.step?, RecordStore.delete?_eq hr, HandleSession.step, withPointer_of h]
      rfl
  | showRecord i =>
    obtain ⟨r, hr⟩ := Option.isSome_iff_exists.1 h
    exact showRecord_eq hr (hlaid i r hr)
  | _ => exact h.elim

end HandleSession

end HalLink
