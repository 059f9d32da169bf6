import HalLink.Proofs.InterfaceName.Grammar
import HalLink.Proofs.InterfaceName.Package
import HalLink.Proofs.Manifest.Declarations
import HalLink.Routing

set_option autoImplicit false

namespace HalLink

def IsFrameworkPackage (package : String) : Prop :=
  package = "android.hidl" ∨ "android.hidl.".toList <+: package.toList

def Side.Covers : Side → String → Prop
  | .framework, package => IsFrameworkPackage package
  | .device, package => ¬ IsFrameworkPackage package

inductive LoadsAs : Option (List RawEntry) → Option Manifest → Prop
  | absent : LoadsAs none none
  | present {raw : List RawEntry} {m : Manifest} :
      Manifest.ofRaw raw = .ok m → LoadsAs (some raw) (some m)

theorem LoadsAs.eq_none {m : Option Manifest} (h : LoadsAs none m) : m = none := by
  cases h
  rfl

theorem LoadsAs.exists_of_some {raw : List RawEntry} {m : Option Manifest}
    (h : LoadsAs (some raw) m) : ∃ m', m = some m' ∧ Manifest.ofRaw raw = .ok m' := by
  cases h with
  | present h => exact ⟨_, rfl, h⟩

/-- The outcome for a text where each side declares these entries, if it is present. -/
inductive Routed (raw : Sides (Option (List RawEntry))) (text : String) :
    Except LookupFault Decision → Prop
  | invalidName :
      (∀ n, ¬ InterfaceName.Spells text.toList n) → Routed raw text (.error (.invalidName text))
  | missingVersion {n : InterfaceName} :
      InterfaceName.Spells text.toList n → n.version = none →
      Routed raw text (.error (.missingVersion n.render))
  | missingManifest {n : InterfaceName} {v : Version} {side : Side} :
      InterfaceName.Spells text.toList n → n.version = some v → side.Covers n.package →
      raw.get side = none → Routed raw text (.error (.missingManifest side n.render))
  | missingEntry {n : InterfaceName} {v : Version} {side : Side} {entries : List RawEntry} :
      InterfaceName.Spells text.toList n → n.version = some v → side.Covers n.package →
      raw.get side = some entries → (∀ r ∈ entries, ¬ r.Declares n.package v) →
      Routed raw text (.error (.missingEntry side n.render))
  | found {n : InterfaceName} {v : Version} {side : Side} {entries : List RawEntry} {r : RawEntry}
      {t : Transport} :
      InterfaceName.Spells text.toList n → n.version = some v → side.Covers n.package →
      raw.get side = some entries → FirstDeclaring entries n.package v r →
      r.transport = t.text → Routed raw text (.ok ⟨n, side, t⟩)

inductive Verdict where
  | invalidName
  | missingVersion
  | missingManifest (side : Side)
  | missingEntry (side : Side)
  | found (side : Side) (transport : Transport)

def Verdict.of : Except LookupFault Decision → Verdict
  | .error (.invalidName _) => .invalidName
  | .error (.missingVersion _) => .missingVersion
  | .error (.missingManifest side _) => .missingManifest side
  | .error (.missingEntry side _) => .missingEntry side
  | .ok d => .found d.side d.transport

/-- Both absent, or with the same entries up to the spelling of their versions. -/
def SameSide : Option (List RawEntry) → Option (List RawEntry) → Prop :=
  Option.Rel (List.Forall₂ RawEntry.SameDeclaration)

theorem Side.covers_iff (side : Side) (n : InterfaceName) :
    side.Covers n.package ↔ side = n.side := by
  have h : n.inPackage frameworkPackage = true ↔ IsFrameworkPackage n.package :=
    n.inPackage_iff frameworkPackage
  unfold InterfaceName.side
  by_cases hp : IsFrameworkPackage n.package
  · cases side <;> simp [Covers, h, hp]
  · cases side <;> simp [Covers, h, hp]

variable {raw : Sides (Option (List RawEntry))} {manifests : Sides (Option Manifest)}

theorem settle_routed {text : String} {n : InterfaceName} {v : Version}
    (hload : LoadsAs (raw.get n.side) (manifests.get n.side))
    (hn : InterfaceName.Spells text.toList n) (hv : n.version = some v) :
    Routed raw text (settle n (manifests.get n.side)) := by
  have hside := (Side.covers_iff n.side n).2 rfl
  generalize hr : raw.get n.side = r at hload
  generalize manifests.get n.side = m at hload ⊢
  cases hload with
  | absent =>
    rw [settle_none]
    exact .missingManifest hn hv hside hr
  | @present entries m hm =>
    rw [settle_some hv]
    rcases Manifest.transportOf_of_ofRaw hm n.package v with ⟨e, he, hne, htext⟩ | ⟨hnone, hempty⟩
    · rw [if_neg hne]
      exact .found hn hv hside hr he htext
    · rw [if_pos hempty]
      exact .missingEntry hn hv hside hr hnone

theorem resolve_routed (hload : ∀ side, LoadsAs (raw.get side) (manifests.get side))
    (text : String) : Routed raw text (resolve manifests text) := by
  cases hp : InterfaceName.parse text with
  | error fault =>
    rw [resolve_of_error hp]
    refine .invalidName fun n hn => ?_
    rw [InterfaceName.parse_eq_ok_iff.2 hn] at hp
    cases hp
  | ok n =>
    have hn := InterfaceName.parse_eq_ok_iff.1 hp
    cases hv : n.version with
    | none =>
      rw [resolve_of_unversioned hp hv]
      exact .missingVersion hn hv
    | some v =>
      rw [resolve_of_versioned hp hv]
      exact settle_routed (hload n.side) hn hv

/-- No two rules of routing apply to one text, so each outcome is the one that is computed. -/
theorem Routed.resolve_eq (hload : ∀ side, LoadsAs (raw.get side) (manifests.get side))
    {text : String} {outcome : Except LookupFault Decision} (h : Routed raw text outcome) :
    resolve manifests text = outcome := by
  cases h with
  | invalidName hn =>
    cases hp : InterfaceName.parse text with
    | error fault => exact resolve_of_error hp manifests
    | ok n => exact absurd (InterfaceName.parse_sound hp) (hn n)
  | missingVersion hn hv =>
    exact resolve_of_unversioned (InterfaceName.parse_complete hn) hv manifests
  | @missingManifest n v side hn hv hs hr =>
    obtain rfl := (Side.covers_iff side n).1 hs
    have hm : manifests.get n.side = none := (hr ▸ hload n.side).eq_none
    rw [resolve_of_versioned (InterfaceName.parse_complete hn) hv, hm, settle_none]
  | @missingEntry n v side entries hn hv hs hr hnone =>
    obtain rfl := (Side.covers_iff side n).1 hs
    obtain ⟨m, hm, hraw⟩ := (hr ▸ hload n.side).exists_of_some
    rw [resolve_of_versioned (InterfaceName.parse_complete hn) hv, hm, settle_some hv]
    rcases Manifest.transportOf_of_ofRaw hraw n.package v with ⟨e, he, -, -⟩ | ⟨-, hempty⟩
    · obtain ⟨e', hmem, hd⟩ := he.declared
      exact absurd hd (hnone e' hmem)
    · rw [if_pos hempty]
  | @found n v side entries e t hn hv hs hr he ht =>
    obtain rfl := (Side.covers_iff side n).1 hs
    obtain ⟨m, hm, hraw⟩ := (hr ▸ hload n.side).exists_of_some
    rw [resolve_of_versioned (InterfaceName.parse_complete hn) hv, hm, settle_some hv]
    rcases Manifest.transportOf_of_ofRaw hraw n.package v with ⟨e', he', hne, ht'⟩ | ⟨hnone, -⟩
    · obtain rfl := he.unique he'
      obtain rfl := Transport.text_injective (ht.symm.trans ht')
      rw [if_neg hne]
    · obtain ⟨e', hmem, hd⟩ := he.declared
      exact absurd hd (hnone e' hmem)

theorem LoadsAs.eq_of_same {r r' : Option (List RawEntry)} {m m' : Option Manifest}
    (hsame : SameSide r r') (h : LoadsAs r m) (h' : LoadsAs r' m') : m = m' := by
  cases hsame with
  | none =>
    cases h
    cases h'
    rfl
  | some hraw =>
    cases h with
    | present h =>
      cases h' with
      | present h' =>
        have he := Manifest.ofRaw_eq_ok_of_same hraw h
        rw [h'] at he
        exact congrArg some (Except.ok.inj he).symm

theorem verdict_settle {n n' : InterfaceName} (hp : n.package = n'.package)
    (hv : n.version = n'.version) (m : Option Manifest) :
    Verdict.of (settle n m) = Verdict.of (settle n' m) := by
  have hside : n.side = n'.side := by simp [InterfaceName.side, InterfaceName.inPackage, hp]
  cases m with
  | none => simp [settle_none, Verdict.of, hside]
  | some m =>
    cases h : n'.version with
    | none => simp [settle, lookup, hv, h, Verdict.of, Except.map]
    | some v =>
      rw [settle_some (hv.trans h), settle_some h, hp, hside]
      split <;> rfl

/-- Main result: the rules of routing give the outcome, and it is the same, but for the name in it,
for all names of one package and version and for all ways to declare the same on the side that
the package belongs to. -/
theorem resolve_eq_iff_routed (hload : ∀ side, LoadsAs (raw.get side) (manifests.get side))
    (text : String) :
    (∀ outcome, resolve manifests text = outcome ↔ Routed raw text outcome) ∧
    ∀ (raw' : Sides (Option (List RawEntry))) (manifests' : Sides (Option Manifest))
      (text' : String) (n n' : InterfaceName),
      (∀ side, LoadsAs (raw'.get side) (manifests'.get side)) →
      InterfaceName.Spells text.toList n → InterfaceName.Spells text'.toList n' →
      n.package = n'.package → n.version = n'.version →
      (∀ side : Side, side.Covers n.package → SameSide (raw.get side) (raw'.get side)) →
      Verdict.of (resolve manifests text) = Verdict.of (resolve manifests' text') := by
  refine ⟨fun outcome => ⟨fun h => h ▸ resolve_routed hload text, Routed.resolve_eq hload⟩, ?_⟩
  intro raw' manifests' text' n n' hload' hn hn' hp hv hsame
  have hparse := InterfaceName.parse_complete hn
  have hparse' := InterfaceName.parse_complete hn'
  cases h : n.version with
  | none =>
    rw [resolve_of_unversioned hparse h, resolve_of_unversioned hparse' (hv ▸ h)]
    rfl
  | some v =>
    have hside : n.side = n'.side := by simp [InterfaceName.side, InterfaceName.inPackage, hp]
    have hm := LoadsAs.eq_of_same (hsame n.side ((Side.covers_iff n.side n).2 rfl))
      (hload n.side) (hload' n.side)
    rw [resolve_of_versioned hparse h, resolve_of_versioned hparse' (hv ▸ h), ← hside, ← hm]
    exact verdict_settle hp hv (manifests.get n.side)

/-- Two spellings of one request, with and without a name and with other leading zeros. -/
theorem resolve_eq_iff_routed_manager :
    let raw : Sides (Option (List RawEntry)) :=
      ⟨some [⟨"android.hidl.manager", "passthrough", ["2.0", "01.2"]⟩,
        ⟨"android.hidl.manager", "hwbinder", ["1.2"]⟩], none⟩
    let raw' : Sides (Option (List RawEntry)) :=
      ⟨some [⟨"android.hidl.manager", "passthrough", ["2.00", "1.2"]⟩,
        ⟨"android.hidl.manager", "hwbinder", ["1.2"]⟩], some []⟩
    let m : Manifest :=
      ⟨[⟨"android.hidl.manager", .passthrough, [⟨2, 0⟩, ⟨1, 2⟩]⟩,
        ⟨"android.hidl.manager", .hwbinder, [⟨1, 2⟩]⟩]⟩
    (∀ side, LoadsAs (raw.get side) ((Sides.mk (some m) none).get side)) ∧
    Routed raw "android.hidl.manager@1.02::IServiceManager"
      (.ok ⟨⟨"android.hidl.manager", some ⟨1, 2⟩, "IServiceManager"⟩, .framework, .passthrough⟩) ∧
    (∀ side, LoadsAs (raw'.get side) ((Sides.mk (some m) (some .empty)).get side)) ∧
    Verdict.of (resolve ⟨some m, none⟩ "android.hidl.manager@1.02::IServiceManager") =
      Verdict.of (resolve ⟨some m, some .empty⟩ "android.hidl.manager@001.2") := by
  intro raw raw' m
  have hload : ∀ side, LoadsAs (raw.get side) ((Sides.mk (some m) none).get side) := by
    intro side
    cases side
    · exact .present (by decide +kernel)
    · exact .absent
  have hload' : ∀ side, LoadsAs (raw'.get side) ((Sides.mk (some m) (some .empty)).get side) := by
    intro side
    cases side
    · exact .present (by decide +kernel)
    · exact .present rfl
  have hsame : ∀ side : Side, side.Covers "android.hidl.manager" →
      SameSide (raw.get side) (raw'.get side) := by
    intro side hc
    cases side
    · have h2 := Version.denotes_congr "2.0" "2.00" (by decide +kernel)
      have h1 := Version.denotes_congr "01.2" "1.2" (by decide +kernel)
      exact .some (.cons ⟨rfl, rfl, .cons h2 (.cons h1 .nil)⟩
        (.cons ⟨rfl, rfl, .cons (fun _ => .rfl) .nil⟩ .nil))
    · exact absurd (.inr (by decide)) hc
  have hparse : InterfaceName.parse "android.hidl.manager@1.02::IServiceManager" =
      .ok ⟨"android.hidl.manager", some ⟨1, 2⟩, "IServiceManager"⟩ := by decide +kernel
  have hparse' : InterfaceName.parse "android.hidl.manager@001.2" =
      .ok ⟨"android.hidl.manager", some ⟨1, 2⟩, ""⟩ := by decide +kernel
  have h := resolve_eq_iff_routed hload "android.hidl.manager@1.02::IServiceManager"
  refine ⟨hload, (h.1 _).1 ?_, hload', h.2 raw' _ _ _ _ hload' (InterfaceName.parse_sound hparse)
    (InterfaceName.parse_sound hparse') rfl rfl hsame⟩
  decide +kernel

end HalLink
