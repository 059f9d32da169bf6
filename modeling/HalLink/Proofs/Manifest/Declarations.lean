import HalLink.Manifest.Schema
import HalLink.Proofs.Except
import HalLink.Proofs.Version

set_option autoImplicit false

namespace HalLink

def RawEntry.Declares (r : RawEntry) (package : String) (v : Version) : Prop :=
  r.name = package ∧ ∃ text ∈ r.versions, v.Denotes text.toList

def FirstDeclaring (raw : List RawEntry) (package : String) (v : Version) (r : RawEntry) : Prop :=
  ∃ before after, raw = before ++ r :: after ∧ r.Declares package v ∧
    ∀ r' ∈ before, ¬ r'.Declares package v

/-- Entries that differ at most in how they spell the numbers of their versions. -/
def RawEntry.SameDeclaration (r r' : RawEntry) : Prop :=
  r.name = r'.name ∧ r.transport = r'.transport ∧
    List.Forall₂ (fun text text' => ∀ v : Version, v.Denotes text.toList ↔ v.Denotes text'.toList)
      r.versions r'.versions

theorem FirstDeclaring.unique {raw : List RawEntry} {package : String} {v : Version}
    {r r' : RawEntry} (h : FirstDeclaring raw package v r) (h' : FirstDeclaring raw package v r') :
    r = r' := by
  obtain ⟨before, after, hraw, hr, hbefore⟩ := h
  obtain ⟨before', after', hraw', hr', hbefore'⟩ := h'
  rw [hraw] at hraw'
  clear hraw
  induction before generalizing before' with
  | nil =>
    cases before' with
    | nil => exact (List.cons.inj hraw').1
    | cons x xs =>
      obtain rfl := (List.cons.inj hraw').1
      exact absurd hr (hbefore' r (by simp))
  | cons x xs ih =>
    cases before' with
    | nil =>
      obtain rfl := (List.cons.inj hraw').1
      exact absurd hr' (hbefore x (by simp))
    | cons y ys =>
      exact ih (fun z hz => hbefore z (by simp [hz])) ys (List.cons.inj hraw').2
        fun z hz => hbefore' z (by simp [hz])

theorem FirstDeclaring.declared {raw : List RawEntry} {package : String} {v : Version}
    {r : RawEntry} (h : FirstDeclaring raw package v r) : ∃ r ∈ raw, r.Declares package v := by
  obtain ⟨before, after, hraw, hr, -⟩ := h
  exact ⟨r, by simp [hraw], hr⟩

namespace RawEntry

theorem check_eq_ok_iff {r : RawEntry} {e : ManifestEntry} :
    r.check = .ok e ↔ r.name = e.name ∧ Transport.parse? r.transport = some e.transport ∧
      List.Forall₂ (fun text v => Version.parse? text = some v) r.versions e.versions := by
  unfold check
  cases Transport.parse? r.transport with
  | none =>
    simp only [bind_eq_ok_iff]
    simp
  | some t =>
    simp only [bind_eq_ok_iff, mapM_eq_ok_iff]
    constructor
    · rintro ⟨_, ht, vs, hvs, h⟩
      obtain rfl := Except.ok.inj h
      obtain rfl := Except.ok.inj ht
      refine ⟨rfl, rfl, hvs.imp fun text v hv => ?_⟩
      split at hv
      · next hp => rw [hp, Except.ok.inj hv]
      · cases hv
    · rintro ⟨hname, ht, hvs⟩
      obtain rfl := Option.some.inj ht
      refine ⟨e.transport, rfl, e.versions, hvs.imp fun text v hv => ?_, ?_⟩
      · rw [hv]
      · rw [hname]
        rfl

theorem mem_iff_of_parsed {texts : List String} {vs : List Version}
    (h : List.Forall₂ (fun text v => Version.parse? text = some v) texts vs) (v : Version) :
    v ∈ vs ↔ ∃ text ∈ texts, v.Denotes text.toList := by
  simp only [← Version.parse?_eq_some_iff]
  induction h with
  | nil => simp
  | cons htext _ ih => simp [htext, ih, eq_comm]

theorem serves_iff_of_check {r : RawEntry} {e : ManifestEntry} (h : r.check = .ok e)
    (package : String) (v : Version) :
    e.serves package v = true ↔ r.Declares package v := by
  obtain ⟨hname, -, hversions⟩ := check_eq_ok_iff.1 h
  simp [Declares, ManifestEntry.serves, hname, mem_iff_of_parsed hversions]

theorem SameDeclaration.check_eq_ok {r r' : RawEntry} (hsame : r.SameDeclaration r')
    {e : ManifestEntry} (h : r.check = .ok e) : r'.check = .ok e := by
  obtain ⟨hname, htransport, hversions⟩ := hsame
  rw [check_eq_ok_iff] at h ⊢
  obtain ⟨hn, ht, hvs⟩ := h
  refine ⟨hname ▸ hn, htransport ▸ ht, forall₂_via (fun text text' v hiff hv => ?_) hversions hvs⟩
  rw [Version.parse?_eq_some_iff] at hv ⊢
  exact (hiff v).1 hv

end RawEntry

namespace Manifest

theorem ofRaw_eq_ok_iff {raw : List RawEntry} {m : Manifest} :
    ofRaw raw = .ok m ↔ List.Forall₂ (fun r e => r.check = .ok e) raw m.entries := by
  rw [← mapM_eq_ok_iff, ofRaw]
  cases raw.mapM RawEntry.check with
  | error fault => simp [Except.map]
  | ok entries =>
    cases m
    simp [Except.map]

theorem ofRaw_eq_ok_of_same {raw raw' : List RawEntry} {m : Manifest}
    (hsame : List.Forall₂ RawEntry.SameDeclaration raw raw') (h : ofRaw raw = .ok m) :
    ofRaw raw' = .ok m := by
  rw [ofRaw_eq_ok_iff] at h ⊢
  exact forall₂_via (fun _ _ _ hr he => hr.check_eq_ok he) hsame h

/-- Either some entry is the first to declare the package, or none declares it. -/
theorem transportOf_of_ofRaw {raw : List RawEntry} {m : Manifest} (h : ofRaw raw = .ok m)
    (package : String) (v : Version) :
    (∃ r, FirstDeclaring raw package v r ∧ m.transportOf package v ≠ .empty ∧
      r.transport = (m.transportOf package v).text) ∨
    ((∀ r ∈ raw, ¬ r.Declares package v) ∧ m.transportOf package v = .empty) := by
  rw [ofRaw_eq_ok_iff] at h
  obtain ⟨entries⟩ := m
  simp only at h
  induction h with
  | nil => simp
  | @cons r e raw entries hcheck _ ih =>
    have hserves := RawEntry.serves_iff_of_check hcheck package v
    rw [transportOf_cons]
    by_cases hd : r.Declares package v
    · obtain ⟨ht, htext⟩ := Transport.parse?_eq_some_iff.1 (RawEntry.check_eq_ok_iff.1 hcheck).2.1
      rw [if_pos (hserves.2 hd)]
      exact .inl ⟨r, ⟨[], raw, rfl, hd, by simp⟩, ht, htext⟩
    · rw [if_neg fun hs => hd (hserves.1 hs)]
      rcases ih with ⟨r', ⟨before, after, hraw, hr', hbefore⟩, ht⟩ | ⟨hnone, hempty⟩
      · exact .inl ⟨r', ⟨r :: before, after, by simp [hraw], hr', by simpa [hd] using hbefore⟩, ht⟩
      · exact .inr ⟨by simpa [hd] using hnone, hempty⟩

end Manifest

end HalLink
