import HalLink.Manifest.Load

set_option autoImplicit false

namespace HalLink

theorem mapError_eq_ok_iff {ε ε' α : Type} {f : ε → ε'} {x : Except ε α} {a : α} :
    x.mapError f = .ok a ↔ x = .ok a := by
  cases x with
  | error e => exact ⟨(nomatch ·), (nomatch ·)⟩
  | ok a => exact ⟨fun h => congrArg _ (Except.ok.inj h), fun h => congrArg _ (Except.ok.inj h)⟩

theorem mapError_eq_error {ε ε' α : Type} {f : ε → ε'} {x : Except ε α} {e' : ε'}
    (h : x.mapError f = .error e') : ∃ e, e' = f e := by
  cases x with
  | error e => exact ⟨e, (Except.error.inj h).symm⟩
  | ok a => exact nomatch h

variable {read read' : ReadBytes} {path : String}

theorem text_eq_notFound_iff :
    read.text path = .error .notFound ↔ read path = .error .notFound := by
  cases h : read path with
  | error cause => simp [ReadBytes.text, h, bind, Except.bind]
  | ok bytes =>
    simp only [ReadBytes.text, h, bind, Except.bind]
    split <;> simp

theorem text_congr (h : read path = read' path) : read.text path = read'.text path := by
  simp only [ReadBytes.text, h]

namespace Manifest

theorem load_congr (h : read path = read' path) : load read path = load read' path := by
  simp only [load, text_congr h]

theorem parse_eq_ok_iff {malformed : ManifestFault} {text : String} {m : Manifest} :
    parse malformed text = .ok m ↔
      ∃ raw, (Toml.parse? text).bind RawEntry.ofRoot? = some raw ∧ ofRaw raw = .ok m := by
  unfold parse
  cases (Toml.parse? text).bind RawEntry.ofRoot? with
  | none => simp
  | some raw =>
    simp only [Option.some.injEq, exists_eq_left']
    exact mapError_eq_ok_iff

theorem parse_of_load {m : Manifest} (h : load read path = .ok m) :
    ∃ text, parse (.malformedFile path) text = .ok m := by
  unfold load at h
  split at h
  · cases h
  · next text _ => exact ⟨text, h⟩

theorem parse_ne_unreadable {malformed : ManifestFault} {text p : String} {cause : ReadFault}
    (hm : malformed ≠ .unreadable p cause) :
    parse malformed text ≠ .error (.unreadable p cause) := by
  unfold parse
  split
  · simpa using hm
  · intro h
    obtain ⟨fault, hfault⟩ := mapError_eq_error h
    cases hfault

theorem load_eq_notFound_iff :
    (∃ p, load read path = .error (.unreadable p .notFound)) ↔ read path = .error .notFound := by
  rw [← text_eq_notFound_iff]
  unfold load
  cases read.text path with
  | error cause => simp
  | ok text => simpa using fun p => parse_ne_unreadable (by simp)

end Manifest

end HalLink
