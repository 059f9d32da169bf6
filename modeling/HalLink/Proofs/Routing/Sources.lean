import HalLink.Catalog.Basic
import HalLink.Proofs.Except

/-!
Resolving a text against looking up the name in it, over anything that supplies declarations for the
sides. Both want a version of the name and a manifest of its side, but resolving asks for the
version first and looking up for the manifest, so they part where both are missing, and only there.
-/

set_option autoImplicit false

namespace HalLink

/-- What answers for packages at their versions. A lookup sees no more than this of a manifest. -/
abbrev Declarations := String → Version → Transport

/-- What each side has to give, if it has anything, at the time when it is asked. -/
abbrev Source := Side → Option Declarations

def lookupIn (n : InterfaceName) (side : Side) (declared : Option Declarations) :
    Except LookupFault Transport :=
  match declared, n.version with
  | none, _ => .error (.missingManifest side n.render)
  | some _, none => .error (.missingVersion n.render)
  | some declared, some v =>
    match declared n.package v with
    | .empty => .error (.missingEntry side n.render)
    | t => .ok t

namespace Source

def resolve (source : Source) (text : String) : Except LookupFault Decision :=
  match request text with
  | .error fault => .error fault
  | .ok n => (lookupIn n n.side (source n.side)).map fun t => ⟨n, n.side, t⟩

def ofManifests (manifests : Sides (Option Manifest)) : Source :=
  fun side => (manifests.get side).map Manifest.transportOf

def ofCatalog (c : Catalog) (read : ReadBytes) : Source :=
  fun side => (c.manifest read side).answer.map Manifest.transportOf

end Source

/-- Resolving a name goes as looking it up on its side does, unless it has no version and nothing is
there to look it up in. -/
structure Agrees (n : InterfaceName) (present : Bool) (found : Except LookupFault Transport)
    (resolved : Except LookupFault Decision) : Prop where
  error_iff : n.version ≠ none ∨ present = true →
    ∀ fault, resolved = .error fault ↔ found = .error fault
  ok_iff : n.version ≠ none ∨ present = true →
    ∀ d, resolved = .ok d ↔ ∃ t, found = .ok t ∧ d = ⟨n, n.side, t⟩
  apart : n.version = none → present = false →
    resolved = .error (.missingVersion n.render) ∧
      (LookupFault.missingVersion n.render).level = .error ∧
    found = .error (.missingManifest n.side n.render) ∧
      (LookupFault.missingManifest n.side n.render).level = .warn

variable {n : InterfaceName} {v : Version}

theorem lookup_eq_lookupIn (n : InterfaceName) (side : Side) (m : Option Manifest) :
    lookup n side m = lookupIn n side (m.map Manifest.transportOf) := by
  unfold lookup lookupIn
  cases m with
  | none => rfl
  | some m => cases n.version <;> rfl

theorem lookupIn_none (n : InterfaceName) (side : Side) :
    lookupIn n side none = .error (.missingManifest side n.render) := rfl

theorem lookupIn_of_unversioned (h : n.version = none) (side : Side) (declared : Declarations) :
    lookupIn n side (some declared) = .error (.missingVersion n.render) := by
  simp only [lookupIn, h]

theorem lookupIn_of_versioned (h : n.version = some v) (side : Side) (declared : Declarations) :
    lookupIn n side (some declared) =
      if declared n.package v = .empty then .error (.missingEntry side n.render)
      else .ok (declared n.package v) := by
  simp only [lookupIn, h]
  cases declared n.package v <;> rfl

theorem lookupIn_ne_ok_empty (n : InterfaceName) (side : Side) (declared : Option Declarations) :
    lookupIn n side declared ≠ .ok .empty := by
  cases declared with
  | none => simp [lookupIn_none]
  | some declared =>
    cases hv : n.version with
    | none => simp [lookupIn_of_unversioned hv]
    | some v =>
      rw [lookupIn_of_versioned hv]
      split
      · simp
      · next ht => simpa using ht

theorem lookupIn_eq_missingVersion_iff (n : InterfaceName) (side : Side)
    (declared : Option Declarations) (name : String) :
    lookupIn n side declared = .error (.missingVersion name) ↔
      n.version = none ∧ declared ≠ none ∧ name = n.render := by
  cases declared with
  | none => simp [lookupIn_none]
  | some declared =>
    cases hv : n.version with
    | none => simp [lookupIn_of_unversioned hv, eq_comm]
    | some v =>
      rw [lookupIn_of_versioned hv]
      split <;> simp

theorem resolve_eq_source (manifests : Sides (Option Manifest)) (text : String) :
    resolve manifests text = (Source.ofManifests manifests).resolve text := by
  unfold resolve Source.resolve
  cases request text with
  | error fault => rfl
  | ok n => simp only [settle, lookup_eq_lookupIn, Source.ofManifests]

theorem answer_resolve_eq_source (c : Catalog) (read : ReadBytes) (text : String) :
    (c.resolve read text).answer = (Source.ofCatalog c read).resolve text := by
  unfold Catalog.resolve Source.resolve
  cases request text with
  | error fault => rfl
  | ok n => simp only [settle, lookup_eq_lookupIn, Source.ofCatalog]

theorem Source.resolve_of_versioned {text : String} (h : InterfaceName.parse text = .ok n)
    (hv : n.version = some v) (source : Source) :
    source.resolve text =
      (lookupIn n n.side (source n.side)).map fun t => ⟨n, n.side, t⟩ := by
  simp [Source.resolve, request, h, hv]

theorem Source.resolve_of_unversioned {text : String} (h : InterfaceName.parse text = .ok n)
    (hv : n.version = none) (source : Source) :
    source.resolve text = .error (.missingVersion n.render) := by
  simp [Source.resolve, request, h, hv]

theorem agrees_resolve {text : String} (h : InterfaceName.parse text = .ok n) (source : Source) :
    Agrees n (source n.side).isSome (lookupIn n n.side (source n.side)) (source.resolve text) := by
  cases hv : n.version with
  | some v =>
    rw [source.resolve_of_versioned h hv]
    refine ⟨fun _ fault => ?_, fun _ d => ?_, fun hnone => by simp [hv] at hnone⟩
    · cases lookupIn n n.side (source n.side) <;> simp [Except.map]
    · cases lookupIn n n.side (source n.side) <;> simp [Except.map, eq_comm]
  | none =>
    rw [source.resolve_of_unversioned h hv]
    cases hs : source n.side with
    | none =>
      refine ⟨fun hor => ?_, fun hor => ?_, fun _ _ => ⟨rfl, rfl, rfl, rfl⟩⟩
      · simp [hv] at hor
      · simp [hv] at hor
    | some declared =>
      rw [lookupIn_of_unversioned hv]
      exact ⟨fun _ fault => by simp, fun _ d => by simp, by simp⟩

/-- Main result: on any source, also on two given manifests and on a catalog in any state, resolving
goes as looking up except for a name without a version on a side that has nothing to give. Looking
up never finds an open transport, and it misses the version only where there is something to look
in. -/
theorem resolve_agrees_with_lookup :
    (∀ (text : String) (n : InterfaceName), InterfaceName.parse text = .ok n →
      (∀ source : Source,
        Agrees n (source n.side).isSome (lookupIn n n.side (source n.side))
          (source.resolve text)) ∧
      (∀ manifests : Sides (Option Manifest),
        Agrees n (manifests.get n.side).isSome (lookup n n.side (manifests.get n.side))
          (resolve manifests text)) ∧
      ∀ (c : Catalog) (read : ReadBytes),
        Agrees n (c.manifest read n.side).answer.isSome
          (lookup n n.side (c.manifest read n.side).answer) (c.resolve read text).answer) ∧
    (∀ (n : InterfaceName) (side : Side) (m : Option Manifest),
      lookup n side m ≠ .ok .empty ∧
      ∀ name, lookup n side m = .error (.missingVersion name) ↔
        n.version = none ∧ m ≠ none ∧ name = n.render) ∧
    ∀ (n : InterfaceName) (side : Side) (declared : Option Declarations),
      lookupIn n side declared ≠ .ok .empty ∧
      ∀ name, lookupIn n side declared = .error (.missingVersion name) ↔
        n.version = none ∧ declared ≠ none ∧ name = n.render := by
  refine ⟨fun text n h => ⟨agrees_resolve h, fun manifests => ?_, fun c read => ?_⟩,
    fun n side m => ?_, fun n side declared =>
      ⟨lookupIn_ne_ok_empty n side declared, lookupIn_eq_missingVersion_iff n side declared⟩⟩
  · rw [resolve_eq_source, lookup_eq_lookupIn]
    simpa [Source.ofManifests] using agrees_resolve h (Source.ofManifests manifests)
  · rw [answer_resolve_eq_source, lookup_eq_lookupIn]
    simpa [Source.ofCatalog] using agrees_resolve h (Source.ofCatalog c read)
  · rw [lookup_eq_lookupIn]
    refine ⟨lookupIn_ne_ok_empty n side _, fun name => ?_⟩
    rw [lookupIn_eq_missingVersion_iff, Ne, Option.map_eq_none_iff]

/-- A name without a version, on a side with a manifest and on one without. -/
theorem resolve_agrees_with_lookup_unversioned :
    let n : InterfaceName := ⟨"a.b", none, "C"⟩
    InterfaceName.parse "a.b::C" = .ok n ∧
    resolve ⟨none, none⟩ "a.b::C" = .error (.missingVersion "a.b::C") ∧
    lookup n .device none = .error (.missingManifest .device "a.b::C") ∧
    resolve ⟨none, some .empty⟩ "a.b::C" = .error (.missingVersion "a.b::C") ∧
    lookup n .device (some .empty) = .error (.missingVersion "a.b::C") ∧
    Source.resolve (fun _ => some fun _ _ => .hwbinder) "a.b::C" =
      .error (.missingVersion "a.b::C") := by
  intro n
  have hn : InterfaceName.parse "a.b::C" = .ok n := by decide
  have hside : n.side = .device := by decide
  have hrender : n.render = "a.b::C" := by decide
  obtain ⟨hagrees, hlookup, -⟩ := resolve_agrees_with_lookup
  obtain ⟨hsource, hmanifests, -⟩ := hagrees _ n hn
  have hpresent := (hlookup n .device (some .empty)).2 "a.b::C"
  have hfound := hpresent.2 ⟨rfl, by simp, hrender.symm⟩
  obtain ⟨habsent, -, hmissing, -⟩ := (hmanifests ⟨none, none⟩).apart rfl (by rw [hside]; rfl)
  rw [hrender] at habsent hmissing
  rw [hside] at hmissing
  refine ⟨hn, habsent, hmissing, ?_, hfound, ?_⟩
  · refine ((hmanifests ⟨none, some .empty⟩).error_iff (.inr (by rw [hside]; rfl)) _).2 ?_
    rw [hside]
    exact hfound
  · refine ((hsource fun _ => some fun _ _ => .hwbinder).error_iff (.inr rfl) _).2 ?_
    rw [lookupIn_of_unversioned rfl, hrender]

end HalLink
