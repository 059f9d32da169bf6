import HalLink.Proofs.Manifest.Shape
import HalLink.Proofs.Toml.Keys
import Mathlib.Logic.Relation

/-!
What a schema does not see. Readers look for named keys only, so other keys may come and go with any
values, keys may change places, and an entry may be spelled as a table or as a list of its values;
whatever a document goes through in this way, it is read alike. Besides: what is read of an entry,
and which documents do not fit, said value by value.
-/

set_option autoImplicit false

namespace HalLink

open Toml (Value)

/-- One change of a table that leaves alone what stands under the named keys: another key comes in,
or entries change places, of which no two have one key. -/
inductive TableEdit (named : List String) : List (String × Value) → List (String × Value) → Prop
  | add {before after : List (String × Value)} {key : String} {v : Value} :
      key ∉ named → TableEdit named (before ++ after) (before ++ (key, v) :: after)
  | reorder {entries entries' : List (String × Value)} :
      (entries.map Prod.fst).Nodup → entries.Perm entries' → TableEdit named entries entries'

theorem lookup_eq_of_perm {α : Type} {entries entries' : List (String × α)}
    (h : entries.Perm entries') (hkeys : (entries.map Prod.fst).Nodup) (key : String) :
    entries.lookup key = entries'.lookup key := by
  induction h with
  | nil => rfl
  | cons entry _ ih =>
    obtain ⟨k, v⟩ := entry
    rw [List.lookup_cons, List.lookup_cons, ih (List.nodup_cons.1 hkeys).2]
  | swap x y entries =>
    obtain ⟨k, v⟩ := x
    obtain ⟨k', v'⟩ := y
    have hne : k' ≠ k := fun he => (List.nodup_cons.1 hkeys).1 (by simp [he])
    simp only [List.lookup_cons]
    by_cases hk : key = k
    · subst hk
      have hk' : (key == k') = false := by simpa using Ne.symm hne
      simp only [hk', beq_self_eq_true]
    · have hk' : (key == k) = false := by simpa using hk
      simp only [hk']
  | trans h _ ih ih' => rw [ih hkeys, ih' ((h.map Prod.fst).nodup_iff.1 hkeys)]

theorem TableEdit.lookup_eq {named : List String} {entries entries' : List (String × Value)}
    (h : TableEdit named entries entries') {key : String} (hkey : key ∈ named) :
    entries.lookup key = entries'.lookup key := by
  cases h with
  | @add before after other v hother =>
    have hne : (key == other) = false := by
      simp only [beq_eq_false_iff_ne]
      rintro rfl
      exact hother hkey
    rw [List.lookup_append, List.lookup_append, List.lookup_cons, hne]
  | reorder hkeys hperm => exact lookup_eq_of_perm hperm hkeys key

inductive EntryPart where
  | name
  | transport
  | versions
  deriving DecidableEq, Repr

namespace EntryPart

def key : EntryPart → String
  | name => "name"
  | transport => "transport"
  | versions => "versions"

def index : EntryPart → Nat
  | name => 0
  | transport => 1
  | versions => 2

def keys : List String := ["name", "transport", "versions"]

theorem key_mem_keys (p : EntryPart) : p.key ∈ keys := by cases p <;> decide

def Typed : EntryPart → Value → Prop
  | name, v | transport, v => ∃ s, v = .string s
  | versions, v => ∃ texts : List String, v = .array (texts.map .string)

end EntryPart

namespace RawEntry

def partOf? : Value → EntryPart → Option Value
  | .table entries, p => entries.lookup p.key
  | .array elements, p => elements[p.index]?
  | _, _ => none

/-- One change of an entry that is not seen: an edit of its table, or the table in place of a list
of values, of which those after the third have no key. -/
inductive EntryEdit : Value → Value → Prop
  | table {entries entries' : List (String × Value)} :
      TableEdit EntryPart.keys entries entries' → EntryEdit (.table entries) (.table entries')
  | spelling (elements : List Value) :
      EntryEdit (.array elements) (.table (EntryPart.keys.zip elements))

/-- One change of a document that is not seen: an edit of its root, or of one of the entries. -/
inductive DocumentEdit : List (String × Value) → List (String × Value) → Prop
  | root {root root' : List (String × Value)} :
      TableEdit ["hal"] root root' → DocumentEdit root root'
  | entry {before after : List (String × Value)} {earlier later : List Value} {v v' : Value} :
      EntryEdit v v' →
      DocumentEdit (before ++ ("hal", .array (earlier ++ v :: later)) :: after)
        (before ++ ("hal", .array (earlier ++ v' :: later)) :: after)

/-- Values that are no entry: of another kind, without a name or a transport, or with a value of
the wrong type. -/
inductive EntryMisfit (v : Value) : Prop
  | kind : (∀ entries, v ≠ .table entries) → (∀ elements, v ≠ .array elements) → EntryMisfit v
  | lacks {p : EntryPart} : p = .name ∨ p = .transport → partOf? v p = none → EntryMisfit v
  | mistyped {p : EntryPart} {w : Value} : partOf? v p = some w → ¬ p.Typed w → EntryMisfit v

/-- Root tables that have no list for the list of entries, or one with something else in it. -/
inductive DocumentMisfit (root : List (String × Value)) : Prop
  | kind {v : Value} :
      root.lookup "hal" = some v → (∀ elements, v ≠ .array elements) → DocumentMisfit root
  | entry {elements : List Value} {v : Value} :
      root.lookup "hal" = some (.array elements) → v ∈ elements → EntryMisfit v →
      DocumentMisfit root

variable {v v' : Value} {r : RawEntry} {root root' : List (String × Value)}

theorem ofValue?_eq_ofParts? (v : Value) :
    ofValue? v = ofParts? (partOf? v .name) (partOf? v .transport) (partOf? v .versions) := by
  cases v <;> rfl

theorem partOf?_spelling (elements : List Value) (p : EntryPart) :
    partOf? (.array elements) p = partOf? (.table (EntryPart.keys.zip elements)) p := by
  match elements with
  | [] => cases p <;> rfl
  | [_] => cases p <;> rfl
  | [_, _] => cases p <;> rfl
  | _ :: _ :: _ :: _ => cases p <;> rfl

theorem EntryEdit.partOf?_eq (h : EntryEdit v v') (p : EntryPart) : partOf? v p = partOf? v' p := by
  cases h with
  | table h => exact h.lookup_eq p.key_mem_keys
  | spelling elements => exact partOf?_spelling elements p

theorem EntryEdit.ofValue?_eq (h : EntryEdit v v') : ofValue? v = ofValue? v' := by
  simp only [ofValue?_eq_ofParts?, h.partOf?_eq]

theorem ofValue?_eq_some_iff_partOf? : ofValue? v = some r ↔
    partOf? v .name = some (.string r.name) ∧ partOf? v .transport = some (.string r.transport) ∧
      (partOf? v .versions).getD (.array []) = .array (r.versions.map .string) := by
  rw [ofValue?_eq_ofParts?, ofParts?_eq_some_iff, Parts]
  cases partOf? v .versions with
  | none => simp [eq_comm]
  | some w => simp

theorem exists_of_not_misfit (h : ¬ EntryMisfit v) : ∃ r, ofValue? v = some r := by
  have htyped : ∀ p w, partOf? v p = some w → p.Typed w := by
    intro p w hw
    by_contra ht
    exact h (.mistyped hw ht)
  have hpart : ∀ p : EntryPart, p = .name ∨ p = .transport → ∃ w, partOf? v p = some w :=
    fun p hp => Option.ne_none_iff_exists'.1 fun hnone => h (.lacks hp hnone)
  obtain ⟨_, hname⟩ := hpart .name (.inl rfl)
  obtain ⟨name, rfl⟩ := htyped .name _ hname
  obtain ⟨_, htransport⟩ := hpart .transport (.inr rfl)
  obtain ⟨transport, rfl⟩ := htyped .transport _ htransport
  cases hversions : partOf? v .versions with
  | none =>
    exact ⟨⟨name, transport, []⟩, ofValue?_eq_some_iff_partOf?.2
      ⟨hname, htransport, by rw [hversions]; rfl⟩⟩
  | some w =>
    obtain ⟨versions, rfl⟩ := htyped .versions w hversions
    exact ⟨⟨name, transport, versions⟩, ofValue?_eq_some_iff_partOf?.2
      ⟨hname, htransport, by rw [hversions]; rfl⟩⟩

theorem not_misfit_of_eq_some (h : ofValue? v = some r) : ¬ EntryMisfit v := by
  obtain ⟨hname, htransport, hversions⟩ := ofValue?_eq_some_iff_partOf?.1 h
  intro hmisfit
  cases hmisfit with
  | kind htable harray =>
    cases v with
    | table entries => exact htable entries rfl
    | array elements => exact harray elements rfl
    | _ => cases hname
  | @lacks p hp hnone =>
    rcases hp with rfl | rfl
    · cases hnone.symm.trans hname
    · cases hnone.symm.trans htransport
  | @mistyped p w hw ht =>
    cases p with
    | name => exact ht ⟨_, Option.some.inj (hw.symm.trans hname)⟩
    | transport => exact ht ⟨_, Option.some.inj (hw.symm.trans htransport)⟩
    | versions =>
      rw [hw] at hversions
      exact ht ⟨_, hversions⟩

theorem ofValue?_eq_none_iff : ofValue? v = none ↔ EntryMisfit v := by
  constructor
  · intro h
    by_contra hfits
    obtain ⟨r, hr⟩ := exists_of_not_misfit hfits
    cases h.symm.trans hr
  · intro h
    exact Option.eq_none_iff_forall_ne_some.2 fun r hr => not_misfit_of_eq_some hr h

theorem DocumentEdit.ofRoot?_eq (h : DocumentEdit root root') : ofRoot? root = ofRoot? root' := by
  cases h with
  | root h => simp only [ofRoot?, h.lookup_eq (List.mem_singleton_self _)]
  | @entry before after earlier later v v' h =>
    have hlist :
        (earlier ++ v :: later).mapM ofValue? = (earlier ++ v' :: later).mapM ofValue? := by
      simp only [List.mapM_append, List.mapM_cons, h.ofValue?_eq]
    simp only [ofRoot?, List.lookup_append]
    cases before.lookup "hal" with
    | some w => rfl
    | none => simpa using hlist

theorem ofRoot?_eq_of_eqvGen (h : Relation.EqvGen DocumentEdit root root') :
    ofRoot? root = ofRoot? root' := by
  induction h with
  | rel root root' h => exact h.ofRoot?_eq
  | refl root => rfl
  | symm root root' _ ih => exact ih.symm
  | trans root mid root' _ _ ih ih' => exact ih.trans ih'

theorem not_shape_iff : (∀ r, ¬ Shape v r) ↔ EntryMisfit v := by
  rw [← ofValue?_eq_none_iff, Option.eq_none_iff_forall_ne_some]
  exact forall_congr' fun r => not_congr ofValue?_eq_some_iff.symm

theorem rootMisfit_iff_documentMisfit : RootMisfit root ↔ DocumentMisfit root := by
  simp only [RootMisfit, not_shape_iff]
  constructor
  · rintro ⟨v, hv, hmisfit⟩
    cases v with
    | array elements =>
      obtain ⟨e, he, hbad⟩ := hmisfit elements rfl
      exact .entry hv he hbad
    | _ => exact .kind hv (by simp)
  · intro h
    cases h with
    | @kind v hv hkind => exact ⟨v, hv, fun elements he => absurd he (hkind elements)⟩
    | @entry elements e hv he hbad =>
      refine ⟨_, hv, fun elements' he' => ?_⟩
      obtain rfl := Value.array.inj he'
      exact ⟨e, he, hbad⟩

theorem ofRoot?_eq_none_iff : ofRoot? root = none ↔ DocumentMisfit root := by
  rw [← rootMisfit_iff_documentMisfit, rootMisfit_iff, Option.eq_none_iff_forall_ne_some,
    not_exists]
  exact forall_congr' fun raw => not_congr ofRoot?_eq_some_iff

theorem ofRoot?_eq_some_iff_getD {raw : List RawEntry} : ofRoot? root = some raw ↔
    ∃ elements, (root.lookup "hal").getD (.array []) = .array elements ∧
      List.Forall₂ (fun v r => ofValue? v = some r) elements raw := by
  unfold ofRoot?
  cases root.lookup "hal" with
  | none => simp [eq_comm]
  | some v =>
    cases v with
    | array elements => simp [mapM_eq_some_iff]
    | _ => simp

end RawEntry

namespace Manifest

def ofDocument (malformed : ManifestFault) (root : List (String × Value)) :
    Except ManifestFault Manifest :=
  match RawEntry.ofRoot? root with
  | none => .error malformed
  | some raw => (ofRaw raw).mapError .entry

theorem parse_eq_ofDocument (malformed : ManifestFault) (text : String) :
    parse malformed text =
      match Toml.parse? text with
      | none => .error malformed
      | some root => ofDocument malformed root := by
  unfold parse
  cases Toml.parse? text <;> rfl

open RawEntry in
/-- Main result: documents that differ in what the schema does not name, in the order of keys and in
the spelling of entries are one manifest or one fault; no key comes twice in a document that is
decoded, so its keys may change places. A list that is missing counts as empty, of entries as of
versions; and a document is refused just if it has no list of entries in its place or something in
it that is no entry. -/
theorem schema_sees_named :
    (∀ root root', Relation.EqvGen DocumentEdit root root' →
      ∀ malformed, ofDocument malformed root = ofDocument malformed root') ∧
    (∀ text root, Toml.parse? text = some root → (Value.table root).KeysDistinct) ∧
    (∀ root raw, ofRoot? root = some raw ↔
      ∃ elements, (root.lookup "hal").getD (.array []) = .array elements ∧
        List.Forall₂ (fun v r => ofValue? v = some r) elements raw) ∧
    (∀ v r, ofValue? v = some r ↔
      partOf? v .name = some (.string r.name) ∧
      partOf? v .transport = some (.string r.transport) ∧
      (partOf? v .versions).getD (.array []) = .array (r.versions.map .string)) ∧
    (∀ elements, ofValue? (.array elements) = ofValue? (.table (EntryPart.keys.zip elements))) ∧
    (∀ root, ofRoot? root = none ↔ DocumentMisfit root) ∧
    ∀ malformed text, parse malformed text =
      match Toml.parse? text with
      | none => .error malformed
      | some root => ofDocument malformed root := by
  refine ⟨fun root root' h malformed => ?_, fun text root => Toml.keysDistinct_of_parse?,
    fun root raw => ofRoot?_eq_some_iff_getD, fun v r => ofValue?_eq_some_iff_partOf?,
    fun elements => (EntryEdit.spelling elements).ofValue?_eq, fun root => ofRoot?_eq_none_iff,
    parse_eq_ofDocument⟩
  simp only [ofDocument, ofRoot?_eq_of_eqvGen h]

/-- A table with its keys in another order, with one more that has a number for a name, beside an
unknown key of the root; and the same entry as a list that goes on. -/
theorem schema_sees_named_list :
    let name : Value := .string "a.b"
    let transport : Value := .string "hwbinder"
    let versions : Value := .array [.string "1.0"]
    let root : List (String × Value) :=
      [("hals", .integer 1), ("hal", .array [.table [("versions", versions), ("Name", .integer 3),
        ("transport", transport), ("name", name)]])]
    let root' : List (String × Value) :=
      [("hal", .array [.array [name, transport, versions, .boolean true]])]
    Relation.EqvGen RawEntry.DocumentEdit root root' ∧
    ofDocument .malformedText root = ofDocument .malformedText root' ∧
    ofDocument .malformedText root' = .ok ⟨[⟨"a.b", .hwbinder, [⟨1, 0⟩]⟩]⟩ := by
  intro name transport versions root root'
  -- Both documents lead to the one that has the entry as a table, with the named keys in order.
  let ordered : List (String × Value) := [("hal", .array [.table [("name", name),
    ("transport", transport), ("versions", versions)]])]
  let reversed : List (String × Value) := [("hal", .array [.table [("versions", versions),
    ("transport", transport), ("name", name)]])]
  have hroot : RawEntry.DocumentEdit root.tail root :=
    .root (@TableEdit.add _ [] _ _ _ (by decide))
  have hadd : RawEntry.DocumentEdit reversed root.tail :=
    @RawEntry.DocumentEdit.entry [] _ [] _ _ _
      (.table (@TableEdit.add _ [("versions", versions)] _ _ _ (by decide)))
  have horder : RawEntry.DocumentEdit reversed ordered :=
    @RawEntry.DocumentEdit.entry [] _ [] _ _ _
      (.table (.reorder (by decide) (List.reverse_perm _).symm))
  have hspelling : RawEntry.DocumentEdit root' ordered :=
    @RawEntry.DocumentEdit.entry [] _ [] _ _ _
      (.spelling [name, transport, versions, .boolean true])
  have hedits : Relation.EqvGen RawEntry.DocumentEdit root root' :=
    .trans _ _ _ (.symm _ _ (.rel _ _ hroot)) <| .trans _ _ _ (.symm _ _ (.rel _ _ hadd)) <|
      .trans _ _ _ (.rel _ _ horder) (.symm _ _ (.rel _ _ hspelling))
  exact ⟨hedits, schema_sees_named.1 root root' hedits _, by decide +kernel⟩

end Manifest

end HalLink
