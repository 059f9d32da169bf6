import HalLink.ByteString.View
import HalLink.Proofs.ByteString.Memory
import HalLink.Proofs.Text.Faults

set_option autoImplicit false

namespace HalLink.Memory

variable {m m' : Memory} {x : ByteString} {text : String}

theorem text_eq_ok_iff : m.text x = .ok text ↔ m.bytes x = Utf8.encode text :=
  Utf8.decode_eq_ok_iff

theorem lossyText_of_text (h : m.text x = .ok text) : m.lossyText x = text := by
  rw [lossyText, text_eq_ok_iff.1 h, Utf8.decodeLossy_encode]

theorem text_of_copyOf (h : m.CopyOf (Utf8.encode text) m' x) : m'.text x = .ok text :=
  text_eq_ok_iff.2 h.bytes

/-- Main result: a string has a text exactly if its bytes are the encoding of it, and then the lossy
text and what is displayed are the same; a string made of a text has that text. Where there is no
text, the fault tells how far the bytes are one, and the lossy text is the text up to there, U+FFFD,
and the lossy text of the bytes after the fault. -/
theorem text_views_agree (m : Memory) (x : ByteString) :
    (∀ text, m.text x = .ok text ↔ m.bytes x = Utf8.encode text) ∧
    (∀ text, m.text x = .ok text → m.lossyText x = text ∧ m.display x = text) ∧
    (∀ text, (Utf8.encode text).length < UInt32.size →
      ∃ m' y, m.copy (Utf8.encode text) = .ok (m', y) ∧ m'.text y = .ok text) ∧
    ∀ fault, m.text x = .error fault →
      ∃ front, fault.Marks (m.bytes x) front ∧
        m.lossyText x = front ++ "\uFFFD" ++ fault.lossyRest (m.bytes x) := by
  refine ⟨fun _ => text_eq_ok_iff, fun _ h => ⟨lossyText_of_text h, lossyText_of_text h⟩,
    fun text h => ?_, fun fault h => ?_⟩
  · obtain ⟨m', y, hcopy, hy⟩ := m.exists_copy h
    exact ⟨m', y, hcopy, text_of_copyOf hy⟩
  · exact Utf8.marks_of_decode_error h

/-- The last bytes of the buffer start a character of three bytes that does not go on. -/
theorem text_views_agree_broken :
    let m : Memory := ⟨.empty, [[0, 104, 0xC3, 0xA9, 0xE2, 0x82, 0xFF, 65, 0]]⟩
    let x : ByteString := ⟨.external ⟨0, 1⟩, 7, false⟩
    let y : ByteString := ⟨.external ⟨0, 1⟩, 3, false⟩
    (m.text y = .ok "hé" ∧ m.display y = "hé") ∧
    (∃ m' z, m.copy (Utf8.encode "hé") = .ok (m', z) ∧ m'.text z = .ok "hé") ∧
    m.text x = .error ⟨3, some 2⟩ ∧ m.lossyText x = "hé\uFFFD\uFFFDA" := by
  intro m x y
  have hy : m.bytes y = Utf8.encode "hé" := by decide
  have hbytes : m.bytes x = Utf8.encode "hé" ++ [0xE2, 0x82, 0xFF, 65] := by decide
  have hx : m.text x = .error ⟨3, some 2⟩ := by
    rw [text, hbytes, Utf8.decode, Utf8.decodeFrom_encode_broken "hé" rfl]
    rfl
  have hrest : Utf8.decodeLossy [0xFF, 65] = "\uFFFDA" := by decide +kernel
  obtain ⟨htext, hdisplay, -, -⟩ := text_views_agree m y
  obtain ⟨-, -, hmade, hfault⟩ := text_views_agree m x
  obtain ⟨front, hmarks, hlossy⟩ := hfault _ hx
  have hfront : front = "hé" := Utf8.encode_inj.1 (hmarks.front.symm.trans hy)
  refine ⟨⟨(htext _).2 hy, (hdisplay _ ((htext _).2 hy)).2⟩, hmade _ (by decide), hx, ?_⟩
  rw [hlossy, hfront]
  exact congrArg ("hé\uFFFD" ++ ·) hrest

end HalLink.Memory
