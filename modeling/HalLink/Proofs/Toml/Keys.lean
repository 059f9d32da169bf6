import HalLink.Proofs.Except
import HalLink.Proofs.Toml.Reading
import HalLink.Toml.Document

/-!
No key comes twice in a table of a document, at any depth. A table that is written in pieces keeps
this, for whatever adds to it refuses a key that is there or changes what stands under it; braces
are filled in the same way, and the readers of values pass it on.
-/

set_option autoImplicit false

namespace HalLink.Toml

/-- No table has a key twice, the value itself and those inside it included. -/
inductive Value.KeysDistinct : Value → Prop
  | scalar {v : Value} :
      (∀ elements, v ≠ .array elements) → (∀ entries, v ≠ .table entries) → KeysDistinct v
  | array {elements : List Value} :
      (∀ v ∈ elements, KeysDistinct v) → KeysDistinct (.array elements)
  | table {entries : List (String × Value)} :
      (entries.map Prod.fst).Nodup → (∀ e ∈ entries, KeysDistinct e.2) →
      KeysDistinct (.table entries)

theorem Value.keysDistinct_array {elements : List Value} :
    (Value.array elements).KeysDistinct ↔ ∀ v ∈ elements, v.KeysDistinct := by
  constructor
  · intro h
    cases h with
    | scalar harray => exact absurd rfl (harray elements)
    | array helements => exact helements
  · exact .array

theorem Value.keysDistinct_table {entries : List (String × Value)} :
    (Value.table entries).KeysDistinct ↔
      (entries.map Prod.fst).Nodup ∧ ∀ e ∈ entries, e.2.KeysDistinct := by
  constructor
  · intro h
    cases h with
    | scalar _ htable => exact absurd rfl (htable entries)
    | table hkeys hvalues => exact ⟨hkeys, hvalues⟩
  · exact fun h => .table h.1 h.2

namespace Entries

def KeysDistinct (entries : Entries) : Prop := (Value.table (entriesToValues entries)).KeysDistinct

variable {entries entries' last : Entries} {earlier : List Entries} {key key' : String}
  {node : Node} {v : Value} {path : List String}

theorem keysDistinct_nil : KeysDistinct [] := .table List.nodup_nil fun _ he => nomatch he

theorem keysDistinct_cons : KeysDistinct ((key, node) :: entries) ↔
    key ∉ entries.map Prod.fst ∧ node.toValue.KeysDistinct ∧ entries.KeysDistinct := by
  have hkeys : (entriesToValues entries).map Prod.fst = entries.map Prod.fst := by
    simp [entriesToValues_eq_map]
  simp only [KeysDistinct, entriesToValues, Value.keysDistinct_table, List.map_cons,
    List.nodup_cons, List.forall_mem_cons, hkeys]
  rw [and_assoc, and_left_comm (b := node.toValue.KeysDistinct)]

theorem keysDistinct_tables : (Node.tables (last :: earlier)).toValue.KeysDistinct ↔
    last.KeysDistinct ∧ (Node.tables earlier).toValue.KeysDistinct := by
  simp only [Node.toValue, Value.keysDistinct_array, List.mem_reverse, elementsToValues,
    List.forall_mem_cons, KeysDistinct]

theorem keysDistinct_of_find? (h : entries.KeysDistinct) (hfind : entries.find? key = some node) :
    node.toValue.KeysDistinct := by
  induction entries with
  | nil => cases hfind
  | cons entry rest ih =>
    obtain ⟨k, n⟩ := entry
    obtain ⟨-, hn, hrest⟩ := keysDistinct_cons.1 h
    rw [find?, List.lookup_cons] at hfind
    split at hfind
    · obtain rfl := Option.some.inj hfind
      exact hn
    · exact ih hrest hfind

theorem mem_keys_put (h : key' ∈ (entries.put key node).map Prod.fst) :
    key' = key ∨ key' ∈ entries.map Prod.fst := by
  induction entries with
  | nil => exact .inl (List.mem_singleton.1 h)
  | cons entry rest ih =>
    obtain ⟨k, n⟩ := entry
    rw [put] at h
    split at h
    · exact (List.mem_cons.1 h).imp_right (List.mem_cons_of_mem _)
    · rcases List.mem_cons.1 h with rfl | h
      · exact .inr List.mem_cons_self
      · exact (ih h).imp_right (List.mem_cons_of_mem _)

namespace KeysDistinct

theorem put (h : entries.KeysDistinct) (key : String) (node : Node)
    (hnode : node.toValue.KeysDistinct) : (entries.put key node).KeysDistinct := by
  induction entries with
  | nil => exact keysDistinct_cons.2 ⟨List.not_mem_nil, hnode, keysDistinct_nil⟩
  | cons entry rest ih =>
    obtain ⟨k, n⟩ := entry
    obtain ⟨hk, hn, hrest⟩ := keysDistinct_cons.1 h
    rw [Entries.put]
    split
    · next hkey =>
      subst hkey
      exact keysDistinct_cons.2 ⟨hk, hnode, hrest⟩
    · next hne =>
      exact keysDistinct_cons.2 ⟨fun hmem => (mem_keys_put hmem).elim hne hk, hn, ih hrest⟩

theorem put_made {made : Option Entries} {wrap : Entries → Node} (h : entries.KeysDistinct)
    (hput : (do return entries.put key (wrap (← made))) = some entries')
    (hmade : ∀ inner, made = some inner → (wrap inner).toValue.KeysDistinct) :
    entries'.KeysDistinct := by
  obtain ⟨inner, hinner, hput⟩ := Option.bind_eq_some_iff.1 hput
  obtain rfl := Option.some.inj hput
  exact h.put key _ (hmade inner hinner)

theorem modifyAt {change : Entries → Option Entries}
    (hchange : ∀ {e e' : Entries}, e.KeysDistinct → change e = some e' → e'.KeysDistinct)
    (h : entries.KeysDistinct) (hmodify : entries.modifyAt change path = some entries') :
    entries'.KeysDistinct := by
  induction path generalizing entries entries' with
  | nil => exact hchange h hmodify
  | cons parent path ih =>
    -- The next key leads to nothing yet, to a table, to tables of which the last is changed, or
    -- nowhere a path can go on.
    rw [Entries.modifyAt] at hmodify
    split at hmodify
    · exact h.put_made hmodify fun inner hinner => ih keysDistinct_nil hinner
    · next hfind =>
      exact h.put_made hmodify fun inner hinner => ih (keysDistinct_of_find? h hfind) hinner
    · next hfind =>
      obtain ⟨hlast, hearlier⟩ := keysDistinct_tables.1 (keysDistinct_of_find? h hfind)
      exact h.put_made hmodify
        fun inner hinner => keysDistinct_tables.2 ⟨ih hlast hinner, hearlier⟩
    · cases hmodify
    · cases hmodify

theorem insert (hv : v.KeysDistinct) (h : entries.KeysDistinct)
    (hinsert : entries.insert key v path = some entries') : entries'.KeysDistinct := by
  induction path generalizing entries entries' with
  | nil =>
    rw [Entries.insert] at hinsert
    split at hinsert
    · obtain rfl := Option.some.inj hinsert
      exact h.put key (.value v) hv
    · cases hinsert
  | cons parent path ih =>
    rw [Entries.insert] at hinsert
    split at hinsert
    · exact h.put_made hinsert fun inner hinner => ih keysDistinct_nil hinner
    · next hfind =>
      split at hinsert
      · cases hinsert
      · exact h.put_made hinsert fun inner hinner => ih (keysDistinct_of_find? h hfind) hinner
    · next hfind =>
      split at hinsert
      · cases hinsert
      · obtain ⟨hlast, hearlier⟩ := keysDistinct_tables.1 (keysDistinct_of_find? h hfind)
        exact h.put_made hinsert
          fun inner hinner => keysDistinct_tables.2 ⟨ih hlast hinner, hearlier⟩
    · cases hinsert
    · cases hinsert

theorem openTable (h : entries.KeysDistinct) (hopen : entries.openTable key = some entries') :
    entries'.KeysDistinct := by
  rw [Entries.openTable] at hopen
  split at hopen
  · obtain rfl := Option.some.inj hopen
    exact h.put key (.table .defined []) keysDistinct_nil
  · next inner hfind =>
    have hinner : Entries.KeysDistinct inner := keysDistinct_of_find? h hfind
    obtain rfl := Option.some.inj hopen
    exact h.put key (.table .defined inner) hinner
  · cases hopen

theorem openElement (h : entries.KeysDistinct) (hopen : entries.openElement key = some entries') :
    entries'.KeysDistinct := by
  rw [Entries.openElement] at hopen
  split at hopen
  · obtain rfl := Option.some.inj hopen
    exact h.put key (.tables [[]]) (keysDistinct_tables.2 ⟨keysDistinct_nil, .array nofun⟩)
  · next hfind =>
    obtain rfl := Option.some.inj hopen
    exact h.put key _ (keysDistinct_tables.2 ⟨keysDistinct_nil, keysDistinct_of_find? h hfind⟩)
  · cases hopen

end KeysDistinct

end Entries

def Yields {α : Type} (r : Reader α) (P : α → Prop) : Prop :=
  ∀ text a rest, r text = some (a, rest) → P a

namespace Yields

variable {α β : Type} {r r' : Reader α} {P : α → Prop} {Q : β → Prop} {a : α}

theorem pure (h : P a) : Yields (Pure.pure a) P := by
  intro text b rest hread
  obtain ⟨rfl, -⟩ := Prod.mk.inj (Option.some.inj hread)
  exact h

theorem failure : Yields Alternative.failure P := fun _ _ _ hread => nomatch hread

theorem bind {f : α → Reader β} (h : Yields r P) (hf : ∀ a, P a → Yields (f a) Q) :
    Yields (r >>= f) Q := by
  intro text b rest hread
  obtain ⟨⟨a, mid⟩, ha, hb⟩ := Option.bind_eq_some_iff.1 hread
  exact hf a (h text a mid ha) mid b rest hb

theorem bind_right {f : α → Reader β} (hf : ∀ a, Yields (f a) Q) : Yields (r >>= f) Q :=
  bind (P := fun _ => True) (fun _ _ _ _ => trivial) fun a _ => hf a

theorem orElse (h : Yields r P) (h' : Yields r' P) : Yields (r <|> r') P := by
  intro text a rest hread
  rcases hr : r text with - | ⟨b, mid⟩
  · rw [Reader.orElse_of_none hr] at hread
    exact h' text a rest hread
  · rw [Reader.orElse_of_some hr] at hread
    obtain ⟨rfl, -⟩ := Prod.mk.inj (Option.some.inj hread)
    exact h text b mid hr

theorem many (h : Yields r P) : Yields (Toml.many r) fun as => ∀ a ∈ as, P a := by
  have hlimit : ∀ limit text, ∀ a ∈ (manyUpTo r limit text).1, P a := by
    intro limit
    induction limit with
    | nil => simp [manyUpTo]
    | cons c limit ih =>
      intro text
      rw [manyUpTo]
      split
      · exact List.forall_mem_nil P
      · next a rest hr => exact List.forall_mem_cons.2 ⟨h text a rest hr, ih rest⟩
  intro text as rest hread
  obtain ⟨rfl, -⟩ := Prod.mk.inj (Option.some.inj hread)
  exact hlimit text text

theorem separated (h : Yields r P) (sep : Char) :
    Yields (Toml.separated r sep) fun as => ∀ a ∈ as, P a := by
  refine orElse (bind h fun a ha => bind (many (.bind_right fun _ => h)) fun as has => ?_) ?_
  · exact pure (List.forall_mem_cons.2 ⟨ha, has⟩)
  · exact pure (List.forall_mem_nil P)

end Yields

theorem yields_scalar : Yields scalar Value.KeysDistinct := by
  have hleaf : ∀ {α : Type} (r : Reader α) (leaf : α → Value),
      (∀ a elements, leaf a ≠ .array elements) → (∀ a entries, leaf a ≠ .table entries) →
      Yields (do return leaf (← r)) Value.KeysDistinct :=
    fun r leaf harray htable => .bind_right fun a => .pure (.scalar (harray a) (htable a))
  exact .orElse (hleaf string .string nofun nofun) <|
    .orElse (hleaf dateTime .dateTime nofun nofun) <| .orElse (hleaf number .float nofun nofun) <|
      .orElse (hleaf integer .integer nofun nofun) (hleaf boolean .boolean nofun nofun)

variable {element : Reader Value}

theorem yields_arrayOf (h : Yields element Value.KeysDistinct) :
    Yields (arrayOf element) Value.KeysDistinct := by
  have hitem : Yields (do filler; let v ← element; filler; return v) Value.KeysDistinct :=
    .bind_right fun _ => .bind h fun v hv => .bind_right fun _ => .pure hv
  refine .bind_right fun _ => .bind (.separated hitem ',') fun elements helements => ?_
  have hclose : Yields (do filler; expect ']'; return .array elements) Value.KeysDistinct :=
    .bind_right fun _ => .bind_right fun _ => .pure (.array helements)
  split
  · exact .bind_right fun _ => hclose
  · exact hclose

theorem yields_assignment (h : Yields element Value.KeysDistinct) :
    Yields (assignment element) fun (_, v) => v.KeysDistinct :=
  .bind_right fun _ => .bind_right fun _ => .bind_right fun _ => .bind h fun _ hv => .pure hv

theorem keysDistinct_of_assignments {assignments : List (KeyPath × Value)} {entries : Entries}
    (hvalues : ∀ a ∈ assignments, a.2.KeysDistinct)
    (h : entriesOfAssignments assignments = some entries) : entries.KeysDistinct :=
  foldlM_preserves (fun a ha _ _ hentries hinsert => .insert (hvalues a ha) hentries hinsert)
    Entries.keysDistinct_nil h

theorem yields_inlineTableOf (h : Yields element Value.KeysDistinct) :
    Yields (inlineTableOf element) Value.KeysDistinct := by
  have hitem : Yields (do let a ← assignment element; blanks; return a)
      fun (_, v) => v.KeysDistinct :=
    .bind (yields_assignment h) fun a ha => .bind_right fun _ => .pure ha
  refine .bind_right fun _ => .bind (.separated hitem ',') fun assignments hvalues => ?_
  refine .bind_right fun _ => .bind_right fun _ => ?_
  split
  · next hentries => exact .pure (keysDistinct_of_assignments hvalues hentries)
  · exact .failure

theorem yields_valueWithin (depth : Nat) : Yields (valueWithin depth) Value.KeysDistinct := by
  induction depth with
  | zero => exact yields_scalar
  | succ depth ih =>
    exact .orElse yields_scalar (.orElse (yields_arrayOf ih) (yields_inlineTableOf ih))

def Statement.KeysDistinct : Statement → Prop
  | .assign _ v => v.KeysDistinct
  | .blank | .header _ | .elementHeader _ => True

theorem yields_statement : Yields statement Statement.KeysDistinct := by
  have hblank : Yields blankLine Statement.KeysDistinct :=
    .orElse (.bind_right fun _ => .pure trivial) <|
      .bind_right fun _ => .bind_right fun _ => .pure trivial
  have hheader : Yields headerLine Statement.KeysDistinct := by
    refine .orElse ?_ ?_ <;>
      exact .bind_right fun _ => .bind_right fun _ => .bind_right fun _ => .bind_right fun _ =>
        .pure trivial
  have hassign : Yields assignmentLine Statement.KeysDistinct :=
    .bind (yields_assignment (yields_valueWithin _)) fun _ hv => .bind_right fun _ => .pure hv
  exact .bind (.orElse hblank (.orElse hheader hassign)) fun _ hs => .bind_right fun _ => .pure hs

theorem yields_statements : Yields statements fun all => ∀ s ∈ all, s.KeysDistinct :=
  .bind_right fun _ => .bind_right fun _ => .bind (.many yields_statement) fun _ hall =>
    .bind_right fun _ => .pure hall

theorem Document.keysDistinct_add {doc doc' : Document} {s : Statement} (hs : s.KeysDistinct)
    (h : doc.root.KeysDistinct) (hadd : doc.add s = some doc') : doc'.root.KeysDistinct := by
  cases s with
  | blank => exact Option.some.inj hadd ▸ h
  | header path =>
    obtain ⟨root, hroot, hdoc⟩ := Option.bind_eq_some_iff.1 hadd
    obtain rfl := Option.some.inj hdoc
    exact h.modifyAt .openTable hroot
  | elementHeader path =>
    obtain ⟨root, hroot, hdoc⟩ := Option.bind_eq_some_iff.1 hadd
    obtain rfl := Option.some.inj hdoc
    exact h.modifyAt .openElement hroot
  | assign path v =>
    obtain ⟨root, hroot, hdoc⟩ := Option.bind_eq_some_iff.1 hadd
    obtain rfl := Option.some.inj hdoc
    exact h.modifyAt (.insert hs) hroot

theorem keysDistinct_of_parse? {text : String} {root : List (String × Value)}
    (h : parse? text = some root) : (Value.table root).KeysDistinct := by
  obtain ⟨⟨all, rest⟩, hall, h⟩ := Option.bind_eq_some_iff.1 h
  obtain ⟨doc, hdoc, h⟩ := Option.bind_eq_some_iff.1 h
  obtain rfl := Option.some.inj h
  have hvalues := yields_statements text.toList all rest hall
  exact foldlM_preserves (P := fun doc : Document => doc.root.KeysDistinct)
    (fun s hs _ _ hdoc hadd => Document.keysDistinct_add (hvalues s hs) hdoc hadd)
    Entries.keysDistinct_nil hdoc

end HalLink.Toml
