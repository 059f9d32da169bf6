import HalLink.Manifest.Writer
import HalLink.Proofs.Manifest.Declarations
import HalLink.Proofs.Manifest.Loading
import HalLink.Proofs.Toml.Writing

/-!
Written manifests are read back. Each entry is five lines, each line one statement, and the
statements of an entry add one table to the array that the entries before it have filled; the schema
and the checks then find in each table what was written.
-/

set_option autoImplicit false

namespace HalLink

open Toml

/-- A character that a text between quotes holds as it is: no quote, no backslash and no control
character but the tab. -/
def PlainChar (c : Char) : Prop :=
  c ≠ '"' ∧ c ≠ '\\' ∧ (c.toNat < 0x20 → c = '\t') ∧ c.toNat ≠ 0x7F

instance (c : Char) : Decidable (PlainChar c) := inferInstanceAs (Decidable (_ ∧ _ ∧ _ ∧ _))

structure ManifestEntry.Writable (e : ManifestEntry) : Prop where
  plain : ∀ c ∈ e.name.toList, PlainChar c
  transport : e.transport = .hwbinder ∨ e.transport = .passthrough

theorem isBasicChar_of_plain {c : Char} (h : PlainChar c) : isBasicChar c = true := by
  obtain ⟨hquote, hbackslash, hcontrol, hdelete⟩ := h
  have hline : isLineChar c = true := by
    by_cases hc : c.toNat < 0x20
    · simp [isLineChar, hcontrol hc]
    · simp [isLineChar, hdelete, Nat.not_lt.1 hc]
  simp [isBasicChar, hline, hbackslash, quote, hquote]

theorem toList_inQuotes (s : String) : (inQuotes s).toList = quoted s.toList := by
  simp [inQuotes, quoted, quote]

theorem plainChar_of_digit {c : Char} (h : '0' ≤ c ∧ c ≤ '9') : PlainChar c := by
  have hlower : '0'.toNat ≤ c.toNat := h.1
  have hupper : c.toNat ≤ '9'.toNat := h.2
  simp only [Char.reduceToNat] at hlower hupper
  refine ⟨?_, ?_, fun hc => by omega, by omega⟩
  · rintro rfl
    simp at hlower
  · rintro rfl
    simp at hupper

theorem isBasicChar_render (v : Version) : ∀ c ∈ v.render.toList, isBasicChar c = true := by
  have hdigits (n : Nat) : ∀ c ∈ Nat.toDigits 10 n, isBasicChar c = true := fun c hc =>
    isBasicChar_of_plain (plainChar_of_digit ((Version.numeral_toDigits n).decimal c hc))
  rw [Version.toList_render, List.forall_mem_append, List.forall_mem_cons]
  exact ⟨hdigits _, by decide, hdigits _⟩

theorem isBasicChar_text (t : Transport) : ∀ c ∈ t.text.toList, isBasicChar c = true := by
  cases t <;> simp [Transport.text, isBasicChar, isLineChar, quote]

namespace ManifestEntry

variable {e : ManifestEntry}

def lines (e : ManifestEntry) : List (List Char × Statement) :=
  [(elementLine "hal", .elementHeader ⟨[], "hal"⟩),
    (valueLine "name" (quoted e.name.toList), .assign ⟨[], "name"⟩ (.string e.name)),
    (valueLine "transport" (quoted e.transport.text.toList),
      .assign ⟨[], "transport"⟩ (.string e.transport.text)),
    (valueLine "versions" (listed ((e.versions.map Version.render).map String.toList)),
      .assign ⟨[], "versions"⟩ (.array ((e.versions.map Version.render).map .string))),
    (['\n'], .blank)]

theorem toList_write (e : ManifestEntry) : e.write.toList = e.lines.flatMap Prod.fst := by
  have hversions : (", ".intercalate (e.versions.map fun v => inQuotes v.render)).toList =
      [',', ' '].intercalate (((e.versions.map Version.render).map String.toList).map quoted) := by
    rw [String.toList_intercalate]
    simp only [List.map_map, Function.comp_def, toList_inQuotes]
    rfl
  unfold write
  simp only [String.toList_append, toList_inQuotes, hversions]
  simp [lines, listed, elementLine, valueLine]

theorem readsAs_of_mem_lines (h : e.Writable) :
    ∀ line ∈ e.lines, ReadsAs line.1 line.2 := by
  have hname : ∀ c ∈ e.name.toList, isBasicChar c = true :=
    fun c hc => isBasicChar_of_plain (h.plain c hc)
  have hversions : ∀ s ∈ e.versions.map Version.render, ∀ c ∈ s.toList, isBasicChar c = true :=
    List.forall_mem_map.2 fun v _ => isBasicChar_render v
  have hkey : ∀ key ∈ ["hal", "name", "transport", "versions"], BareKey key.toList := by
    have hbare : ∀ key ∈ ["hal", "name", "transport", "versions"],
        key.toList ≠ [] ∧ ∀ c ∈ key.toList, isBareKeyChar c = true := by
      simp [isBareKeyChar]
    exact fun key hmem => ⟨(hbare key hmem).1, (hbare key hmem).2⟩
  simp only [lines, List.forall_mem_cons]
  exact ⟨readsAs_elementLine (hkey _ (by simp)), readsAs_quoted (hkey _ (by simp)) hname,
    readsAs_quoted (hkey _ (by simp)) (isBasicChar_text e.transport),
    readsAs_listed (hkey _ (by simp)) hversions, readsAs_newline, by simp⟩

theorem start_of_mem_lines (e : ManifestEntry) :
    ∀ line ∈ e.lines, line.1 ≠ [] ∧ ∀ rest, StopsAt isIndent (line.1 ++ rest) := by
  simp only [lines, List.forall_mem_cons]
  refine ⟨⟨by simp [elementLine], fun rest => stopsAt_cons rfl _⟩,
    ⟨by simp [valueLine], fun rest => stopsAt_cons rfl _⟩,
    ⟨by simp [valueLine], fun rest => stopsAt_cons rfl _⟩,
    ⟨by simp [valueLine], fun rest => stopsAt_cons rfl _⟩,
    ⟨by simp, fun rest => stopsAt_cons rfl _⟩, by simp⟩

def fields (e : ManifestEntry) : Entries :=
  [("name", .value (.string e.name)), ("transport", .value (.string e.transport.text)),
    ("versions", .value (.array ((e.versions.map Version.render).map .string)))]

def raw (e : ManifestEntry) : RawEntry :=
  ⟨e.name, e.transport.text, e.versions.map Version.render⟩

def rootOf : List Entries → Entries
  | [] => []
  | tables => [("hal", .tables tables)]

theorem foldlM_lines (e : ManifestEntry) (tables : List Entries) (current : List String) :
    (e.lines.map Prod.snd).foldlM Document.add ⟨rootOf tables, current⟩ =
      some ⟨rootOf (e.fields :: tables), ["hal"]⟩ := by
  cases tables <;> rfl

theorem foldlM_entries (entries : List ManifestEntry) (tables : List Entries)
    (current : List String) :
    ∃ current', ((entries.flatMap lines).map Prod.snd).foldlM Document.add
      ⟨rootOf tables, current⟩ =
        some ⟨rootOf ((entries.map fields).reverse ++ tables), current'⟩ := by
  induction entries generalizing tables current with
  | nil => exact ⟨current, rfl⟩
  | cons e entries ih =>
    obtain ⟨current', hentries⟩ := ih (e.fields :: tables) ["hal"]
    refine ⟨current', ?_⟩
    rw [List.flatMap_cons, List.map_append, List.foldlM_append, foldlM_lines]
    simpa using hentries

theorem mapM_map_of_some {α β γ : Type} {f : β → Option γ} {g : α → β} {k : α → γ}
    (h : ∀ a, f (g a) = some (k a)) (as : List α) : (as.map g).mapM f = some (as.map k) := by
  have hfun : f ∘ g = fun a => pure (k a) := funext h
  rw [List.mapM_map, hfun, List.mapM_pure]
  rfl

theorem ofValue?_fields (e : ManifestEntry) :
    RawEntry.ofValue? (.table (entriesToValues e.fields)) = some e.raw := by
  have htext (s : String) : RawEntry.text? (.string s) = some (id s) := rfl
  have htexts : RawEntry.texts? (.array ((e.versions.map Version.render).map .string)) =
      some (e.versions.map Version.render) := by
    rw [RawEntry.texts?, mapM_map_of_some htext, List.map_id]
  change RawEntry.ofParts? (some (.string e.name)) (some (.string e.transport.text))
    (some (.array ((e.versions.map Version.render).map .string))) = some e.raw
  simp only [RawEntry.ofParts?, htexts]
  rfl

theorem ofRoot?_rootOf (entries : List ManifestEntry) :
    RawEntry.ofRoot? (entriesToValues (rootOf (entries.map fields).reverse)) =
      some (entries.map raw) := by
  have htables (tables : List Entries) :
      RawEntry.ofRoot? (entriesToValues (rootOf tables)) =
        (tables.reverse.map fun table => Value.table (entriesToValues table)).mapM
          RawEntry.ofValue? := by
    cases tables with
    | nil => rfl
    | cons table tables =>
      simp [rootOf, entriesToValues, Node.toValue, RawEntry.ofRoot?, elementsToValues_eq_map]
  rw [htables, List.reverse_reverse, List.map_map]
  exact mapM_map_of_some ofValue?_fields entries

theorem check_raw (h : e.Writable) : e.raw.check = .ok e := by
  refine RawEntry.check_eq_ok_iff.2 ⟨rfl, Transport.parse?_eq_some_iff.2 ⟨?_, rfl⟩, ?_⟩
  · rcases h.transport with ht | ht <;> simp [ht]
  · rw [raw, List.forall₂_map_left_iff, List.forall₂_same]
    exact fun v _ => Version.parse?_eq_some_iff.2 (Version.denotes_render v)

end ManifestEntry

namespace Manifest

theorem parse?_write {m : Manifest} (h : ∀ e ∈ m.entries, e.Writable) :
    Toml.parse? m.write = some (entriesToValues
      (ManifestEntry.rootOf (m.entries.map ManifestEntry.fields).reverse)) := by
  have htext : m.write.toList = (m.entries.flatMap ManifestEntry.lines).flatMap Prod.fst := by
    rw [write, String.toList_join, List.flatMap_map, List.flatMap_assoc]
    simp only [ManifestEntry.toList_write]
  have hstatements : statements m.write.toList =
      some ((m.entries.flatMap ManifestEntry.lines).map Prod.snd, []) := by
    rw [htext]
    refine statements_lines (fun line hline => ?_) (fun line hline => ?_)
    all_goals obtain ⟨e, he, hmem⟩ := List.mem_flatMap.1 hline
    · exact ManifestEntry.readsAs_of_mem_lines (h e he) line hmem
    · exact e.start_of_mem_lines line hmem
  obtain ⟨current, hdocument⟩ := ManifestEntry.foldlM_entries m.entries [] []
  rw [List.append_nil] at hdocument
  have hof : Document.ofStatements? ((m.entries.flatMap ManifestEntry.lines).map Prod.snd) =
      some ⟨_, current⟩ := hdocument
  simp [Toml.parse?, hstatements, hof]

/-- Main result: a manifest whose entries can be written as they are is read back from its text,
entry by entry and in order. -/
theorem ofText_write {m : Manifest} (h : ∀ e ∈ m.entries, e.Writable) : ofText m.write = .ok m := by
  refine parse_eq_ok_iff.2 ⟨m.entries.map ManifestEntry.raw, ?_, ?_⟩
  · rw [parse?_write h, Option.bind_some, ManifestEntry.ofRoot?_rootOf]
  · rw [ofRaw_eq_ok_iff, List.forall₂_map_left_iff, List.forall₂_same]
    exact fun e he => ManifestEntry.check_raw (h e he)

/-- Signs that mean something outside quotes, an entry that serves no version, and one twice. -/
theorem ofText_write_signs :
    let e : ManifestEntry := ⟨"a.b] # = [[hal]]\t'é", .hwbinder, [⟨1, 0⟩, ⟨4294967295, 7⟩]⟩
    let m : Manifest := ⟨[e, ⟨"", .passthrough, []⟩, e]⟩
    (∀ e ∈ m.entries, e.Writable) ∧
    e.write = "[[hal]]\nname = \"a.b] # = [[hal]]\t'é\"\ntransport = \"hwbinder\"\n" ++
      "versions = [\"1.0\", \"4294967295.7\"]\n\n" ∧
    ofText m.write = .ok m := by
  intro e m
  have he : e.Writable := ⟨by simp [e, PlainChar], .inl rfl⟩
  have hempty : ManifestEntry.Writable ⟨"", .passthrough, []⟩ := ⟨by simp, .inr rfl⟩
  have hm : ∀ e ∈ m.entries, e.Writable := by simp [m, he, hempty]
  exact ⟨hm, by decide +kernel, ofText_write hm⟩

end Manifest

end HalLink
