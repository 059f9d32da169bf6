import HalLink.Proofs.Toml.Reading
import HalLink.Toml.Document

/-!
Reading back what is written in plain TOML: strings between double quotes without escapes, arrays of
them, and lines that assign them to bare keys or open an element of an array of tables.
-/

set_option autoImplicit false

namespace HalLink.Toml

open Reader

def quoted (content : List Char) : List Char := quote :: (content ++ [quote])

def listed (contents : List (List Char)) : List Char :=
  '[' :: ([',', ' '].intercalate (contents.map quoted) ++ [']'])

variable {content key text rest : List Char}

theorem quoted_append (content rest : List Char) :
    quoted content ++ rest = quote :: (content ++ quote :: rest) := by simp [quoted]

theorem basicString_quoted (h : ∀ c ∈ content, isBasicChar c = true) (rest : List Char) :
    basicString (quoted content ++ rest) = some (String.ofList content, rest) := by
  have hitem : (satisfy isBasicChar <|> escape) (quote :: rest) = none := rfl
  have hmany : many (satisfy isBasicChar <|> escape) (content ++ quote :: rest) =
      some (content, quote :: rest) :=
    many_chars (fun c hc rest => orElse_of_some (satisfy_cons (h c hc) rest) _) hitem
  rw [quoted_append, basicString, bind_of_some (expect_cons _ _), bind_of_some hmany,
    bind_of_some (expect_cons _ _)]
  rfl

theorem multilineBasicString_quoted (h : ∀ c ∈ content, isBasicChar c = true)
    (hrest : StopsAt (· == quote) rest) : multilineBasicString (quoted content ++ rest) = none := by
  have hopening : expectAll [quote, quote, quote] (quoted content ++ rest) = none := by
    rw [quoted_append, expectAll_cons]
    cases content with
    | nil =>
      rw [List.nil_append, expectAll_cons]
      exact expectAll_of_stopsAt hrest _
    | cons c content =>
      have hc : (c == quote) = false := by
        have hbasic := h c (by simp)
        simp only [isBasicChar, Bool.and_eq_true, bne_iff_ne] at hbasic
        simpa using hbasic.1.2
      exact expectAll_of_stopsAt (stopsAt_cons (p := (· == quote)) hc _) _
  exact bind_of_none hopening _

theorem valueWithin_quoted (h : ∀ c ∈ content, isBasicChar c = true)
    (hrest : StopsAt (· == quote) rest) (depth : Nat) :
    valueWithin depth (quoted content ++ rest) =
      some (.string (String.ofList content), rest) := by
  have hstring : string (quoted content ++ rest) = some (String.ofList content, rest) := by
    rw [string, orElse_of_none (multilineBasicString_quoted h hrest),
      orElse_of_some (basicString_quoted h rest)]
  have hscalar : scalar (quoted content ++ rest) =
      some (.string (String.ofList content), rest) := by
    rw [scalar, orElse_of_some]
    rw [bind_of_some hstring]
    rfl
  cases depth with
  | zero => exact hscalar
  | succ depth => rw [valueWithin, orElse_of_some hscalar]

def isFillerStart (c : Char) : Bool := isBlank c || c == '\n' || c == '\r' || c == '#'

def ElementEnds (rest : List Char) : Prop := ∃ tail, rest = ',' :: tail ∨ rest = ']' :: tail

theorem ElementEnds.stopsAt {p : Char → Bool} (hcomma : p ',' = false) (hbracket : p ']' = false)
    (h : ElementEnds rest) : StopsAt p rest := by
  obtain ⟨tail, rfl | rfl⟩ := h
  · exact stopsAt_cons hcomma tail
  · exact stopsAt_cons hbracket tail

theorem fillerItem_of_stopsAt (h : StopsAt isFillerStart text) :
    ((do let _ ← satisfy isBlank) <|> newline <|> comment : Reader Unit) text = none := by
  cases text with
  | nil => rfl
  | cons c text =>
    have hc : isFillerStart c = false := h c rfl
    simp only [isFillerStart, Bool.or_eq_false_iff, beq_eq_false_iff_ne] at hc
    obtain ⟨⟨⟨hblank, hfeed⟩, hreturn⟩, hhash⟩ := hc
    have hnewline : newline (c :: text) = none := by
      rw [newline, orElse_of_none (expect_of_stopsAt (stopsAt_cons (by simpa using hfeed) _))]
      exact expectAll_of_stopsAt (stopsAt_cons (by simpa using hreturn) _) _
    have hcomment : comment (c :: text) = none :=
      bind_of_none (expect_of_stopsAt (stopsAt_cons (by simpa using hhash) _)) _
    rw [orElse_of_none (bind_of_none (satisfy_of_stopsAt (stopsAt_cons hblank _)) _),
      orElse_of_none hnewline, hcomment]

theorem filler_append {gap : List Char} (hgap : ∀ c ∈ gap, isBlank c = true)
    (h : StopsAt isFillerStart text) : filler (gap ++ text) = some ((), text) := by
  have hread : ∀ c ∈ gap, ∀ rest, True →
      ((do let _ ← satisfy isBlank) <|> newline <|> comment : Reader Unit) ([c] ++ rest) =
        some ((), rest) :=
    fun c hc rest _ => orElse_of_some (bind_of_some (satisfy_cons (hgap c hc) rest) _) _
  have hmany := many_written (fun c => [c]) (fun _ => ()) (fun _ => True) hread
    (fun c _ => ⟨by simp, fun _ => trivial⟩) trivial (fillerItem_of_stopsAt h)
  rw [List.flatMap_singleton'] at hmany
  exact bind_of_some hmany _

theorem filler_of_stopsAt (h : StopsAt isFillerStart text) : filler text = some ((), text) :=
  bind_of_some (many_of_none (fillerItem_of_stopsAt h)) _

section

variable {β : Type} {element : Reader Value} {write : β → List Char} {result : β → Value}
  {bs : List β}

def spaced (element : Reader Value) : Reader Value := do
  filler
  let v ← element
  filler
  return v

theorem spaced_append {gap : List Char} {v : Value} (hgap : ∀ c ∈ gap, isBlank c = true)
    (hstart : StopsAt isFillerStart text) (helement : element text = some (v, rest))
    (hrest : StopsAt isFillerStart rest) :
    spaced element (gap ++ text) = some (v, rest) := by
  rw [spaced, bind_of_some (filler_append hgap hstart), bind_of_some helement,
    bind_of_some (filler_of_stopsAt hrest)]
  rfl

theorem intercalate_cons (b : β) (bs : List β) (write : β → List Char) (sep : List Char) :
    sep.intercalate ((b :: bs).map write) = write b ++ bs.flatMap fun b => sep ++ write b := by
  induction bs generalizing b with
  | nil => simp
  | cons b' bs ih =>
    rw [List.map_cons, List.map_cons, List.intercalate_cons_cons, ← List.map_cons, ih]
    simp

theorem separated_written
    (hread : ∀ b ∈ bs, ∀ rest, ElementEnds rest → element (write b ++ rest) = some (result b, rest))
    (hstart : ∀ b ∈ bs, ∀ rest, StopsAt isFillerStart (write b ++ rest))
    (hnone : ∀ rest, element (']' :: rest) = none) (rest : List Char) :
    separated (spaced element) ',' ([',', ' '].intercalate (bs.map write) ++ ']' :: rest) =
      some (bs.map result, ']' :: rest) := by
  cases bs with
  | nil =>
    have hitem : spaced element (']' :: rest) = none := by
      rw [spaced, bind_of_some (filler_of_stopsAt (stopsAt_cons rfl rest)),
        bind_of_none (hnone rest)]
    simp only [List.map_nil, List.intercalate_nil, List.nil_append]
    rw [separated, orElse_of_none (bind_of_none hitem _)]
    rfl
  | cons b bs =>
    simp only [List.forall_mem_cons] at hread hstart
    have hother : ∀ b ∈ bs, ∀ rest, ElementEnds rest →
        (do expect ','; spaced element : Reader Value) (([',', ' '] ++ write b) ++ rest) =
          some (result b, rest) := by
      intro b hb rest hends
      rw [List.append_assoc]
      refine (bind_of_some (expect_cons ',' _) _).trans ?_
      exact spaced_append (by simp [isBlank]) (hstart.2 b hb rest) (hread.2 b hb rest hends)
        (hends.stopsAt rfl rfl)
    have hmany := many_written (fun b => [',', ' '] ++ write b) result ElementEnds hother
      (fun b _ => ⟨by simp, fun rest => ⟨_, .inl rfl⟩⟩) ⟨rest, .inr rfl⟩
      (bind_of_none (expect_of_stopsAt (stopsAt_cons rfl rest)) _)
    have hends : ElementEnds (bs.flatMap (fun b => [',', ' '] ++ write b) ++ ']' :: rest) := by
      cases bs with
      | nil => exact ⟨rest, .inr rfl⟩
      | cons b' bs => exact ⟨_, .inl rfl⟩
    have hnogap : ∀ c ∈ ([] : List Char), isBlank c = true := by simp
    have hfirst := spaced_append hnogap (hstart.1 _) (hread.1 _ hends) (hends.stopsAt rfl rfl)
    rw [List.nil_append] at hfirst
    rw [intercalate_cons, List.append_assoc, separated, orElse_of_some]
    rw [bind_of_some hfirst, bind_of_some hmany]
    rfl

theorem arrayOf_written
    (hread : ∀ b ∈ bs, ∀ rest, ElementEnds rest → element (write b ++ rest) = some (result b, rest))
    (hstart : ∀ b ∈ bs, ∀ rest, StopsAt isFillerStart (write b ++ rest))
    (hnone : ∀ rest, element (']' :: rest) = none) (rest : List Char) :
    arrayOf element ('[' :: ([',', ' '].intercalate (bs.map write) ++ ']' :: rest)) =
      some (.array (bs.map result), rest) := by
  have hseparated : separated (do filler; let v ← element; filler; return v) ','
      ([',', ' '].intercalate (bs.map write) ++ ']' :: rest) =
      some (bs.map result, ']' :: rest) := separated_written hread hstart hnone rest
  have hcomma : optional (expect ',') (']' :: rest) = some (none, ']' :: rest) :=
    optional_of_none (expect_of_stopsAt (stopsAt_cons rfl rest))
  have hclose : (do filler; expect ']'; return .array (bs.map result) : Reader Value)
      (']' :: rest) = some (.array (bs.map result), rest) := by
    rw [bind_of_some (filler_of_stopsAt (stopsAt_cons rfl rest)), bind_of_some (expect_cons _ _)]
    rfl
  rw [arrayOf, bind_of_some (expect_cons _ _), bind_of_some hseparated]
  split
  · rw [bind_of_some hcomma]
    exact hclose
  · exact hclose

end

theorem valueWithin_listed {contents : List (List Char)}
    (h : ∀ content ∈ contents, ∀ c ∈ content, isBasicChar c = true) (depth : Nat)
    (rest : List Char) :
    valueWithin (depth + 1) (listed contents ++ rest) =
      some (.array (contents.map fun content => .string (String.ofList content)), rest) := by
  have hnone : ∀ rest, valueWithin depth (']' :: rest) = none := by
    intro rest
    cases depth <;> rfl
  have harray : arrayOf (valueWithin depth) (listed contents ++ rest) =
      some (.array (contents.map fun content => .string (String.ofList content)), rest) := by
    rw [listed, List.cons_append, List.append_assoc]
    refine arrayOf_written (fun content hc rest hends => ?_) (fun content _ rest => ?_) hnone rest
    · exact valueWithin_quoted (h content hc) (hends.stopsAt rfl rfl) depth
    · exact stopsAt_cons rfl _
  have hscalar : scalar (listed contents ++ rest) = none := rfl
  rw [valueWithin, orElse_of_none hscalar, orElse_of_some harray]

structure BareKey (key : List Char) : Prop where
  nonempty : key ≠ []
  bare : ∀ c ∈ key, isBareKeyChar c = true

theorem BareKey.stopsAt (h : BareKey key) {p : Char → Bool}
    (hp : ∀ c, isBareKeyChar c = true → p c = false) (rest : List Char) :
    StopsAt p (key ++ rest) :=
  stopsAt_append h.nonempty (fun c hc => hp c (h.bare c hc)) rest

theorem BareKey.stopsAt_of_not (h : BareKey key) {d : Char} (hd : isBareKeyChar d = false)
    (rest : List Char) : StopsAt (· == d) (key ++ rest) := by
  refine h.stopsAt (fun c hc => ?_) rest
  rw [beq_eq_false_iff_ne]
  rintro rfl
  rw [hc] at hd
  cases hd

theorem isBlank_of_isBareKeyChar (c : Char) (h : isBareKeyChar c = true) : isBlank c = false := by
  rw [isBlank, Bool.or_eq_false_iff, beq_eq_false_iff_ne, beq_eq_false_iff_ne]
  constructor <;> rintro rfl <;> revert h <;> decide

theorem bareKey_append (h : BareKey key) (hrest : StopsAt isBareKeyChar rest) :
    bareKey (key ++ rest) = some (String.ofList key, rest) := by
  obtain ⟨hne, hbare⟩ := h
  cases key with
  | nil => exact absurd rfl hne
  | cons c key =>
    obtain ⟨hc, hkey⟩ := List.forall_mem_cons.1 hbare
    rw [List.cons_append, bareKey, bind_of_some (satisfy_cons hc _),
      bind_of_some (run_append hkey hrest)]
    rfl

theorem keyPath_bareKey (h : BareKey key) {gap : List Char} (hgap : ∀ c ∈ gap, isBlank c = true)
    {sign : Char} (hsign : sign = '=' ∨ sign = ']') (rest : List Char) :
    keyPath (key ++ (gap ++ sign :: rest)) =
      some (⟨[], String.ofList key⟩, sign :: rest) := by
  have hends {p : Char → Bool} (hequals : p '=' = false) (hbracket : p ']' = false) :
      StopsAt p (sign :: rest) := by
    rcases hsign with rfl | rfl
    · exact stopsAt_cons hequals rest
    · exact stopsAt_cons hbracket rest
  have hgapStops : StopsAt isBareKeyChar (gap ++ sign :: rest) := by
    cases gap with
    | nil => exact hends rfl rfl
    | cons c gap =>
      refine stopsAt_cons (Bool.eq_false_iff.2 fun hc => ?_) _
      have hblank := hgap c (by simp)
      rw [isBlank_of_isBareKeyChar c hc] at hblank
      cases hblank
  have hword : (basicString <|> literalString <|> bareKey) (key ++ (gap ++ sign :: rest)) =
      some (String.ofList key, gap ++ sign :: rest) := by
    have hbasic : basicString (key ++ (gap ++ sign :: rest)) = none :=
      bind_of_none (expect_of_stopsAt (h.stopsAt_of_not (by decide) _)) _
    have hliteral : literalString (key ++ (gap ++ sign :: rest)) = none :=
      bind_of_none (expect_of_stopsAt (h.stopsAt_of_not (by decide) _)) _
    rw [orElse_of_none hbasic, orElse_of_none hliteral, bareKey_append h hgapStops]
  have hpart : keyPart (key ++ (gap ++ sign :: rest)) = some (String.ofList key, sign :: rest) := by
    rw [keyPart, bind_of_some (blanks_of_stopsAt (h.stopsAt isBlank_of_isBareKeyChar _)),
      bind_of_some hword, bind_of_some (blanks_append hgap (hends rfl rfl))]
    rfl
  have hdot : (do expect '.'; keyPart : Reader String) (sign :: rest) = none :=
    bind_of_none (expect_of_stopsAt (hends rfl rfl)) _
  rw [keyPath, bind_of_some hpart, bind_of_some (many_of_none hdot)]
  rfl

theorem statement_of_line {s : Statement}
    (h : (blankLine <|> headerLine <|> assignmentLine) text = some (s, rest))
    (hrest : StopsAt isBlank rest) : statement text = some (s, rest) := by
  rw [statement, bind_of_some h, bind_of_some (blanks_of_stopsAt hrest)]
  rfl

theorem statement_newline (hrest : StopsAt isBlank rest) :
    statement ('\n' :: rest) = some (.blank, rest) :=
  statement_of_line rfl hrest

theorem trailing_newline (rest : List Char) : trailing ('\n' :: rest) = some ((), rest) := rfl

theorem statement_elementHeader (h : BareKey key) (hrest : StopsAt isBlank rest) :
    statement (['[', '['] ++ (key ++ ([']', ']'] ++ '\n' :: rest))) =
      some (.elementHeader ⟨[], String.ofList key⟩, rest) := by
  have hnogap : ∀ c ∈ ([] : List Char), isBlank c = true := by simp
  have hkey : keyPath (key ++ ([']', ']'] ++ '\n' :: rest)) =
      some (⟨[], String.ofList key⟩, [']', ']'] ++ '\n' :: rest) :=
    keyPath_bareKey h hnogap (.inr rfl) _
  have hline : headerLine (['[', '['] ++ (key ++ ([']', ']'] ++ '\n' :: rest))) =
      some (.elementHeader ⟨[], String.ofList key⟩, rest) := by
    rw [headerLine, orElse_of_some]
    rw [bind_of_some (expectAll_append _ _), bind_of_some hkey,
      bind_of_some (expectAll_append [']', ']'] _), bind_of_some (trailing_newline rest)]
    rfl
  have hblank : blankLine (['[', '['] ++ (key ++ ([']', ']'] ++ '\n' :: rest))) = none := rfl
  refine statement_of_line ?_ hrest
  rw [orElse_of_none hblank, orElse_of_some hline]

theorem statement_assign (h : BareKey key) {v : Value} (hstart : StopsAt isBlank text)
    (hvalue : value text = some (v, '\n' :: rest)) (hrest : StopsAt isBlank rest) :
    statement (key ++ ([' ', '=', ' '] ++ text)) =
      some (.assign ⟨[], String.ofList key⟩ v, rest) := by
  have hnot {d : Char} (hd : isBareKeyChar d = false) :
      StopsAt (· == d) (key ++ ([' ', '=', ' '] ++ text)) := h.stopsAt_of_not hd _
  have hblank : blankLine (key ++ ([' ', '=', ' '] ++ text)) = none := by
    have hnewline : newline (key ++ ([' ', '=', ' '] ++ text)) = none := by
      rw [newline, orElse_of_none (expect_of_stopsAt (hnot (by decide))),
        expectAll_of_stopsAt (hnot (by decide))]
    have hcomment : comment (key ++ ([' ', '=', ' '] ++ text)) = none :=
      bind_of_none (expect_of_stopsAt (hnot (by decide))) _
    rw [blankLine, orElse_of_none (bind_of_none hnewline _), bind_of_none hcomment]
  have hheader : headerLine (key ++ ([' ', '=', ' '] ++ text)) = none := by
    rw [headerLine, orElse_of_none (bind_of_none (expectAll_of_stopsAt (hnot (by decide)) _) _),
      bind_of_none (expect_of_stopsAt (hnot (by decide)))]
  have hgap : ∀ c ∈ [' '], isBlank c = true := by simp [isBlank]
  have hkey : keyPath (key ++ ([' ', '=', ' '] ++ text)) =
      some (⟨[], String.ofList key⟩, '=' :: ([' '] ++ text)) :=
    keyPath_bareKey h hgap (.inl rfl) _
  have hassignment : assignment value (key ++ ([' ', '=', ' '] ++ text)) =
      some ((⟨[], String.ofList key⟩, v), '\n' :: rest) := by
    rw [assignment, bind_of_some hkey, bind_of_some (expect_cons _ _),
      bind_of_some (blanks_append hgap hstart), bind_of_some hvalue]
    rfl
  have hline : assignmentLine (key ++ ([' ', '=', ' '] ++ text)) =
      some (.assign ⟨[], String.ofList key⟩ v, rest) := by
    rw [assignmentLine, bind_of_some hassignment]
    exact bind_of_some (trailing_newline rest) _
  refine statement_of_line ?_ hrest
  rw [orElse_of_none hblank, orElse_of_none hheader, hline]

/-- The text is a line that is read as the statement, if the next line has no blanks in front. -/
def ReadsAs (line : List Char) (s : Statement) : Prop :=
  ∀ rest, StopsAt isBlank rest → statement (line ++ rest) = some (s, rest)

def elementLine (key : String) : List Char := ['[', '['] ++ (key.toList ++ [']', ']', '\n'])

def valueLine (key : String) (value : List Char) : List Char :=
  key.toList ++ ([' ', '=', ' '] ++ (value ++ ['\n']))

theorem readsAs_newline : ReadsAs ['\n'] .blank := fun _ hrest => statement_newline hrest

theorem readsAs_elementLine {key : String} (h : BareKey key.toList) :
    ReadsAs (elementLine key) (.elementHeader ⟨[], key⟩) := by
  intro rest hrest
  have hline := statement_elementHeader h hrest
  rw [String.ofList_toList] at hline
  simpa [elementLine] using hline

theorem readsAs_valueLine {key : String} (h : BareKey key.toList) {v : Value}
    (hstart : ∀ rest, StopsAt isBlank (text ++ rest))
    (hvalue : ∀ rest, value (text ++ '\n' :: rest) = some (v, '\n' :: rest)) :
    ReadsAs (valueLine key text) (.assign ⟨[], key⟩ v) := by
  intro rest hrest
  have hline := statement_assign h (hstart _) (hvalue rest) hrest
  rw [String.ofList_toList] at hline
  simpa [valueLine] using hline

theorem readsAs_quoted {key : String} (hkey : BareKey key.toList) {s : String}
    (hs : ∀ c ∈ s.toList, isBasicChar c = true) :
    ReadsAs (valueLine key (quoted s.toList)) (.assign ⟨[], key⟩ (.string s)) := by
  refine readsAs_valueLine hkey (fun rest => stopsAt_cons rfl _) fun rest => ?_
  have hvalue : value (quoted s.toList ++ '\n' :: rest) = _ :=
    valueWithin_quoted hs (stopsAt_cons rfl rest) (nestingLimit - 1)
  rwa [String.ofList_toList] at hvalue

theorem readsAs_listed {key : String} (hkey : BareKey key.toList) {ss : List String}
    (hs : ∀ s ∈ ss, ∀ c ∈ s.toList, isBasicChar c = true) :
    ReadsAs (valueLine key (listed (ss.map String.toList)))
      (.assign ⟨[], key⟩ (.array (ss.map .string))) := by
  refine readsAs_valueLine hkey (fun rest => stopsAt_cons rfl _) fun rest => ?_
  have hvalue : value (listed (ss.map String.toList) ++ '\n' :: rest) = _ :=
    valueWithin_listed (List.forall_mem_map.2 hs) (nestingLimit - 2) ('\n' :: rest)
  simpa [Function.comp_def] using hvalue

def isIndent (c : Char) : Bool := isBlank c || c == '\uFEFF'

theorem statements_lines {lines : List (List Char × Statement)}
    (hread : ∀ line ∈ lines, ReadsAs line.1 line.2)
    (hstart : ∀ line ∈ lines, line.1 ≠ [] ∧ ∀ rest, StopsAt isIndent (line.1 ++ rest)) :
    statements (lines.flatMap Prod.fst) = some (lines.map Prod.snd, []) := by
  have hfollows : ∀ line ∈ lines, line.1 ≠ [] ∧ ∀ rest, StopsAt isBlank (line.1 ++ rest) :=
    fun line hline => ⟨(hstart line hline).1, fun rest => ((hstart line hline).2 rest).left⟩
  have hmany := many_written Prod.fst Prod.snd (StopsAt isBlank) hread hfollows (stopsAt_nil _)
    (rfl : statement [] = none)
  rw [List.append_nil] at hmany
  have hindent : StopsAt isIndent (lines.flatMap Prod.fst) := by
    cases lines with
    | nil => exact stopsAt_nil _
    | cons line lines =>
      rw [List.flatMap_cons]
      exact (hstart line (by simp)).2 _
  rw [statements, bind_of_some (optional_of_none (expect_of_stopsAt hindent.right)),
    bind_of_some (blanks_of_stopsAt hindent.left), bind_of_some hmany]
  rfl

end HalLink.Toml
