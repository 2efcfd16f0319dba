import Cityscape.Proofs.Headings
import Cityscape.Proofs.Lines
import Cityscape.Proofs.RoundTrip

/-!
# Texts in quotes

A script has the name of the city and the names and addresses of features in quotes, as they are. The script of a
document tells about its features only, and about all of them, if and only if there is no quote in these texts.
-/

namespace Cityscape

variable {text name : String} {spellings : List (Kind × String)}

/-! ### Bytes of texts -/

namespace Source

private theorem le_of_mem_encode {c d : Char} (hc : 128 ≤ c.toNat)
    (h : d ∈ (String.utf8EncodeChar c).map fun byte ↦ Char.ofNat byte.toNat) : 128 ≤ d.toNat := by
  obtain ⟨byte, hb, rfl⟩ := List.mem_map.mp h
  have hn : ¬ c.val.toNat ≤ 127 := Nat.not_le_of_gt hc
  rw [toNat_ofNat_byte]
  simp only [String.utf8EncodeChar, if_neg hn] at hb
  split_ifs at hb
  all_goals
    simp only [List.mem_cons, List.not_mem_nil, or_false] at hb
    rcases hb with rfl | rfl | rfl | rfl
    all_goals
      rw [UInt8.toNat_ofNat']
      omega

/-- One text after the other. -/
theorem ofString_append (first second : String) :
    ofString (first ++ second) = ofString first ++ ofString second := by
  simp [ofString]

private theorem mem_ofString {c : Char} (hc : c.toNat < 128) : c ∈ ofString text ↔ c ∈ text.toList := by
  have hone (d : Char) (hd : d.toNat < 128) :
      ((String.utf8EncodeChar d).map fun byte ↦ Char.ofNat byte.toNat) = [d] := by
    have h := ofString_eq (show Ascii (String.ofList [d]).toList by simpa [Ascii] using hd)
    simpa [ofString] using h
  rw [ofString, List.map_flatMap, List.mem_flatMap]
  constructor
  · rintro ⟨d, hd, hm⟩
    by_cases hb : d.toNat < 128
    · rw [hone d hb, List.mem_singleton] at hm
      rwa [hm]
    · have := le_of_mem_encode (Nat.le_of_not_lt hb) hm
      omega
  · intro h
    exact ⟨c, h, by simp [hone c hc]⟩

private theorem ofString_of_quotable (h : Quotable (ofString text)) : ofString text = text.toList := by
  refine ofString_eq fun c hc ↦ ?_
  by_contra hn
  obtain ⟨byte, hb⟩ := List.exists_mem_of_ne_nil _ (String.utf8EncodeChar_ne_nil (c := c))
  have hm : Char.ofNat byte.toNat ∈ (String.utf8EncodeChar c).map fun byte ↦ Char.ofNat byte.toNat :=
    List.mem_map_of_mem hb
  have hle := le_of_mem_encode (Nat.le_of_not_lt hn) hm
  have hlt := h.ascii (Char.ofNat byte.toNat) (List.mem_map_of_mem (List.mem_flatMap.mpr ⟨c, hc, hb⟩))
  omega

end Source

/-! ### Literals -/

/-- Whether there is a quote in a text, so that it is no literal between quotes. -/
def breaks (text : String) : Bool :=
  text.toList.contains '"'

/-- What a text between quotes is scanned as: one literal, or more than that if there is a quote in the text. -/
inductive Quotes (text : String) : List (Kind × String) → Prop where
  | whole (h : breaks text = false) : Quotes text [(.string, String.ofList ('"' :: (text.toList ++ ['"'])))]
  | broken (h : breaks text = true) (first last : String) (middle : List (Kind × String)) :
    Quotes text ((.string, first) :: (middle ++ [(.string, last)]))

private theorem LexesTo.quotes {suffix : List Char}
    (h : LexesTo ('"' :: (Source.ofString text ++ '"' :: suffix)) spellings) (hs : '"' ∉ suffix) :
    ∃ front back, spellings = front ++ back ∧ Quotes text front ∧ LexesTo suffix back := by
  have hm : '"' ∈ Source.ofString text ↔ '"' ∈ text.toList := Source.mem_ofString (by decide)
  obtain ⟨hq, back, rfl, hb⟩ | ⟨hq, first, middle, last, back, rfl, hb⟩ := h.quoted hs
  · have hn : breaks text = false := by simpa [breaks, hm] using hq.quote_notMem
    rw [Source.ofString_of_quotable hq]
    exact ⟨[_], back, rfl, .whole hn, hb⟩
  · have hn : breaks text = true := by simpa [breaks, hm] using hq
    exact ⟨_, back, by simp, .broken hn first last middle, hb⟩

private theorem unquote_quoted (text : List Char) : unquote ('"' :: (text ++ ['"'])) = text := by
  rw [unquote, List.getLast?_concat, if_pos rfl, List.dropLast_concat]

/-! ### Sketches -/

/--
What is scanned has these headings, if there is no quote in the names and addresses. In any case a city or an
element begins before each of the names, and twice before those with quotes; it is the same with addresses.
-/
structure Sketches (spellings : List (Kind × String)) (found : List (ElementKind × String))
    (names addresses : List String) : Prop where
  headings : (∀ text ∈ names ++ addresses, breaks text = false) →
    ∀ rest, headings (spellings ++ rest) = found ++ Cityscape.headings rest
  heads : ∀ {third second first}, Coheres third second first (spellings.map Prod.fst) →
    names.length + names.countP breaks ≤ (spellings.map Prod.fst).countP Kind.heads
  addresses : ∀ {third second first}, Coheres third second first (spellings.map Prod.fst) →
    addresses.length + addresses.countP breaks ≤ (spellings.map Prod.fst).count (.keyword .address)

namespace Sketches

variable {spellings' : List (Kind × String)} {found found' : List (ElementKind × String)}
  {names names' addresses addresses' : List String}

private theorem append (h : Sketches spellings found names addresses)
    (h' : Sketches spellings' found' names' addresses') :
    Sketches (spellings ++ spellings') (found ++ found') (names ++ names') (addresses ++ addresses') where
  headings hn rest := by
    simp only [List.forall_mem_append] at hn
    obtain ⟨⟨hnames, hnames'⟩, haddresses, haddresses'⟩ := hn
    rw [List.append_assoc, h.headings (List.forall_mem_append.mpr ⟨hnames, haddresses⟩),
      h'.headings (List.forall_mem_append.mpr ⟨hnames', haddresses'⟩), List.append_assoc]
  heads hc := by
    rw [List.map_append] at hc
    obtain ⟨_, _, _, hl⟩ := hc.later
    have hle := h.heads hc.earlier
    have hle' := h'.heads hl
    simp only [List.map_append, List.countP_append, List.length_append]
    omega
  addresses hc := by
    rw [List.map_append] at hc
    obtain ⟨_, _, _, hl⟩ := hc.later
    have hle := h.addresses hc.earlier
    have hle' := h'.addresses hl
    simp only [List.map_append, List.count_append, List.countP_append, List.length_append]
    omega

/-- No element begins here. -/
theorem of_kinds (h : ∀ kind ∈ spellings.map Prod.fst, kind.element? = none) : Sketches spellings [] [] [] where
  headings _ := headings_append h
  heads _ := Nat.zero_le _
  addresses _ := Nat.zero_le _

private theorem heading {word : Keyword} (hw : (Kind.keyword word).heads = true) (hq : Quotes name spellings)
    (first last : String) :
    Sketches ((.keyword word, first) :: (spellings ++ [(.mark .openBrace, last)]))
      ((Kind.keyword word).element?.map (·, name)).toList [name] [] := by
  have hs : Kind.string.element? = none := rfl
  have hm : (Kind.mark .openBrace).element? = none := rfl
  cases hq with
  | whole hb =>
    refine ⟨fun _ rest ↦ ?_, fun _ ↦ ?_, fun _ ↦ Nat.zero_le _⟩
    · cases he : (Kind.keyword word).element? <;>
        simp [Cityscape.headings, he, hs, hm, unquote_quoted]
    · simp [hb, hw]
  | broken hb first' last' middle =>
    refine ⟨fun hn _ ↦ ?_, fun {_ _ before} hc ↦ ?_, fun _ ↦ Nat.zero_le _⟩
    · rw [hn name (by simp)] at hb
      cases hb
    · -- the last literal has a heading of its own
      have hc : Coheres before (.keyword word) .string (middle.map Prod.fst ++ [.string, .mark .openBrace]) := by
        simpa using hc.2.2
      obtain ⟨kind, hk, hh⟩ := hc.heads_of_brace
      rcases List.mem_cons.mp hk with rfl | hk
      · cases hh
      · have hp : 0 < (middle.map Prod.fst).countP Kind.heads := List.countP_pos_iff.mpr ⟨kind, hk, hh⟩
        simp only [List.cons_append, List.map_cons, List.map_append, List.countP_cons, List.countP_append,
          List.countP_nil, List.length_singleton, hb, hw, if_true]
        omega

private theorem address {address : String} (hq : Quotes address spellings) (first second last : String) :
    Sketches ((.keyword .address, first) :: (.mark .assign, second) ::
      (spellings ++ [(.keyword .events, last)])) [] [] [address] := by
  cases hq with
  | whole hb =>
    refine ⟨fun _ ↦ headings_append (by simp [Kind.element?]), fun _ ↦ Nat.zero_le _, fun _ ↦ ?_⟩
    simp [hb]
  | broken hb first' last' middle =>
    refine ⟨fun hn _ ↦ ?_, fun _ ↦ Nat.zero_le _, fun hc ↦ ?_⟩
    · rw [hn address (by simp)] at hb
      cases hb
    · have hc : Coheres (.keyword .address) (.mark .assign) .string
          (middle.map Prod.fst ++ [.string, .keyword .events]) := by
        simpa using hc.2.2.2
      have hm : .keyword .address ∈ middle.map Prod.fst := by
        simpa using hc.address_of_events
      have hp := List.count_pos_iff.mpr hm
      simp only [List.cons_append, List.map_cons, List.map_append, List.count_cons_self, List.count_cons,
        List.count_append, List.countP_cons, List.countP_nil, List.length_singleton, hb, if_true]
      omega

end Sketches

/-! ### Lines -/

/-- What a city or an element begins with in a script: a keyword, a name in quotes and a brace. -/
def headingOf (word : Keyword) (name : String) : List Char :=
  word.spelling.toList ++ ([' '] ++ '"' :: (Source.ofString name ++
    '"' :: ([' '] ++ Mark.openBrace.spelling.toList)))

/-- Characters without the letters that the keywords of elements have, at least one of them each. -/
def Wordless (chars : List Char) : Prop :=
  's' ∉ chars ∧ 'a' ∉ chars

instance (chars : List Char) : Decidable (Wordless chars) :=
  instDecidableAnd

/-- One text after the other. -/
theorem Wordless.append {first second : String} (h : Wordless first.toList) (h' : Wordless second.toList) :
    Wordless (first ++ second).toList := by
  simp [Wordless, h.1, h.2, h'.1, h'.2]

private theorem Wordless.ofString (h : Wordless text.toList) : Wordless (Source.ofString text) :=
  ⟨mt (Source.mem_ofString (by decide)).mp h.1, mt (Source.mem_ofString (by decide)).mp h.2⟩

namespace LexesTo

variable {chars : List Char}

/-- Blanks are left out. -/
theorem of_blanks (blanks : List Char) (hb : blanks.all isBlank = true)
    (h : LexesTo (blanks ++ chars) spellings) : LexesTo chars spellings := by
  induction blanks with
  | nil => exact h
  | cons c blanks ih =>
    obtain ⟨hc, hb⟩ := Bool.and_eq_true_iff.mp hb
    exact ih hb (h.of_blank hc)

private theorem eq_nil (h : LexesTo [] spellings) : spellings = [] := by
  generalize ht : ([] : List Char) = whole at h
  cases h with
  | nil => rfl
  | blank => cases ht
  | token hl => exact absurd (List.append_eq_nil_iff.mp ht.symm).1 hl.lexical.ne_nil

private theorem element?_eq_none (h : LexesTo chars spellings) (hw : Wordless chars) :
    ∀ kind ∈ spellings.map Prod.fst, kind.element? = none := by
  rw [List.forall_mem_map]
  intro spelling hm
  obtain ⟨hc, hmem⟩ := h.lexical_of_mem hm
  cases he : spelling.1.element? with
  | none => rfl
  | some element =>
    rw [Kind.eq_of_element? he] at hc
    rw [show spelling.2.toList = element.word.spelling.toList from hc] at hmem
    cases element with
    | street | institution | square | statue => exact absurd (hmem 's' (by decide)) hw.1
    | lake => exact absurd (hmem 'a' (by decide)) hw.2

private theorem heading {word : Keyword} (h : LexesTo (headingOf word name) spellings) :
    ∃ quoted, spellings = (.keyword word, word.spelling) ::
      (quoted ++ [(.mark .openBrace, Mark.openBrace.spelling)]) ∧ Quotes name quoted := by
  obtain ⟨more, rfl, hm⟩ := h.of_spelled (.keyword word (separate_cons rfl _))
  obtain ⟨quoted, back, rfl, hq, hb⟩ := (hm.of_blanks _ rfl).quotes (by decide)
  replace hb := hb.of_blanks _ rfl
  rw [← List.append_nil Mark.openBrace.spelling.toList] at hb
  obtain ⟨rest, rfl, hr⟩ := hb.of_spelled (.mark .openBrace nofun)
  obtain rfl := hr.eq_nil
  exact ⟨quoted, by simp, hq⟩

private theorem details {address : String} {number : List Char} (h : LexesTo
      (Keyword.address.spelling.toList ++ ([' '] ++ (Mark.assign.spelling.toList ++
        ([' '] ++ '"' :: (Source.ofString address ++ ['"'])))) ++
      '\n' :: ("        ".toList ++ (Keyword.events.spelling.toList ++ ([' '] ++ number)))) spellings)
    (hw : Wordless number) : Sketches spellings [] [] [address] := by
  obtain ⟨front, back, rfl, hf, hb⟩ := h.line
  obtain ⟨more, rfl, hm⟩ := hf.of_spelled (.keyword .address (separate_cons rfl _))
  obtain ⟨more', rfl, hm'⟩ := (hm.of_blanks _ rfl).of_spelled (.mark .assign fun _ ↦ separate_cons rfl _)
  obtain ⟨quoted, last, rfl, hq, hl⟩ := (hm'.of_blanks _ rfl).quotes (List.not_mem_nil)
  obtain rfl := hl.eq_nil
  obtain ⟨rest, rfl, hr⟩ := (hb.of_blanks _ rfl).of_spelled (.keyword .events (separate_cons rfl _))
  have hn : Sketches rest [] [] [] := .of_kinds ((hr.of_blanks _ rfl).element?_eq_none hw)
  simpa using (Sketches.address hq _ _ _).append hn

end LexesTo

/-- There are no letters in numbers. -/
theorem Script.wordless_number {value : Float} (h : number value = .ok text) : Wordless text.toList := by
  have hd {digits : List Char} (h : Digits digits) : Wordless digits :=
    ⟨fun hc ↦ absurd (h.2 _ hc) (by decide), fun hc ↦ absurd (h.2 _ hc) (by decide)⟩
  have hm {m : Nat} (hm : m < Decimal.infinite) : Wordless (String.ofList (numeral.magnitude m)).toList := by
    have hl := numeral.layout_magnitude hm
    rw [String.toList_ofList]
    generalize numeral.magnitude m = digits at hl
    cases hl with
    | integral whole h _ =>
      rw [show whole ++ numeral.whole.toList = whole from List.append_nil whole]
      exact hd h.digits
    | fractional whole fraction hf h =>
      have hw := hd h.digits
      simp [Wordless, hw.1, hw.2, (hd hf).1, (hd hf).2]
    | scientific _ _ _ _ hp => cases hp
  simp only [number] at h
  split_ifs at h with hi hn
  · cases h
    exact .append (by decide) (hm (Nat.lt_of_not_le hi))
  · cases h
    exact hm (Nat.lt_of_not_le hi)

/-- There are no letters in positions. -/
theorem Script.wordless_coordinate {position : LatLon} (h : coordinate position = .ok text) :
    Wordless text.toList := by
  obtain ⟨longitude, hx, h⟩ := exists_of_bind_eq_ok h
  obtain ⟨latitude, hy, h⟩ := exists_of_bind_eq_ok h
  cases h
  exact .append (.append (.append (.append (by decide) (wordless_number hx)) (by decide)) (wordless_number hy))
    (by decide)

private theorem Script.wordless_coordinates {positions : List LatLon} {texts : List String}
    (h : positions.mapM coordinate = .ok texts) : ∀ text ∈ texts, Wordless text.toList := by
  induction positions generalizing texts with
  | nil =>
    cases h
    exact List.forall_mem_nil _
  | cons position positions ih =>
    rw [List.mapM_cons] at h
    obtain ⟨text, ht, h⟩ := exists_of_bind_eq_ok h
    obtain ⟨more, hm, h⟩ := exists_of_bind_eq_ok h
    cases h
    exact List.forall_mem_cons.mpr ⟨wordless_coordinate ht, ih hm⟩

private theorem Wordless.intercalate {texts : List String} (h : ∀ text ∈ texts, Wordless text.toList) :
    Wordless (", ".intercalate texts).toList := by
  induction texts with
  | nil => decide
  | cons text texts ih =>
    obtain ⟨ht, h⟩ := List.forall_mem_cons.mp h
    cases texts with
    | nil => simpa using ht
    | cons next texts =>
      rw [String.intercalate_cons_cons]
      exact .append (.append ht (by decide)) (ih h)

namespace Script

variable {options : Options} {coordinates : Json} {lines : List String}

private theorem wordless_streetLines (h : streetLines options coordinates = .ok lines) :
    ∀ line ∈ lines, Wordless line.toList := by
  obtain ⟨positions, _, h⟩ := exists_of_bind_eq_ok h
  split at h
  · obtain ⟨angle, ha, h⟩ := exists_of_bind_eq_ok h
    obtain ⟨first, hf, h⟩ := exists_of_bind_eq_ok h
    obtain ⟨second, hs, h⟩ := exists_of_bind_eq_ok h
    obtain ⟨third, ht, h⟩ := exists_of_bind_eq_ok h
    cases h
    have hf := wordless_coordinate hf
    have hs := wordless_coordinate hs
    have ht := wordless_coordinate ht
    have hn := wordless_number ha
    simp [Wordless, hf.1, hf.2, hs.1, hs.2, ht.1, ht.2, hn.1, hn.2]
  · cases h

private theorem wordless_blockLines (h : blockLines coordinates = .ok lines) :
    ∀ line ∈ lines, Wordless line.toList := by
  obtain ⟨ring, _, h⟩ := exists_of_bind_eq_ok h
  obtain ⟨positions, _, h⟩ := exists_of_bind_eq_ok h
  split_ifs at h
  · cases h
  · obtain ⟨corners, hc, h⟩ := exists_of_bind_eq_ok h
    cases h
    have hw : Wordless (", ".intercalate corners).toList := .intercalate (wordless_coordinates hc)
    exact List.forall_mem_singleton.mpr (.append (.append (by decide) hw) (by decide))

private theorem wordless_pointLines (h : pointLines coordinates = .ok lines) :
    ∀ line ∈ lines, Wordless line.toList := by
  obtain ⟨position, _, h⟩ := exists_of_bind_eq_ok h
  obtain ⟨text, ht, h⟩ := exists_of_bind_eq_ok h
  cases h
  exact List.forall_mem_singleton.mpr (.append (by decide) (wordless_coordinate ht))

private theorem wordless_circleLines (h : circleLines options coordinates = .ok lines) :
    ∀ line ∈ lines, Wordless line.toList := by
  obtain ⟨value, _, h⟩ := exists_of_bind_eq_ok h
  obtain ⟨center, _, h⟩ := exists_of_bind_eq_ok h
  obtain ⟨radius, hr, h⟩ := exists_of_bind_eq_ok h
  obtain ⟨text, ht, h⟩ := exists_of_bind_eq_ok h
  cases h
  exact List.forall_mem_singleton.mpr (.append (.append (.append (.append (by decide) (wordless_coordinate ht))
    (by decide)) (wordless_number hr)) (by decide))

private theorem wordless_shapeLines {kind : ElementKind} {outline : Outline}
    (h : shapeLines options kind outline = .ok lines) : ∀ line ∈ lines, Wordless line.toList := by
  rw [shapeLines] at h
  split_ifs at h
  · exact wordless_circleLines h
  · split at h
    · exact wordless_streetLines h
    · exact wordless_blockLines h
    · exact wordless_pointLines h
    · exact wordless_circleLines h

end Script

/-! ### Stanzas -/

/-- The addresses among properties. -/
def Properties.addresses : Properties → List String
  | institution _ address _ => [address]
  | _ => []

/-- Before any other text, this one is scanned as something with these headings, names and addresses. -/
def Describes (chars : List Char) (found : List (ElementKind × String)) (names addresses : List String) : Prop :=
  ∀ rest spellings, LexesTo (chars ++ rest) spellings → ∃ front back, spellings = front ++ back ∧
    Sketches front found names addresses ∧ LexesTo rest back

namespace Describes

variable {chars chars' : List Char} {found found' : List (ElementKind × String)}
  {names names' addresses addresses' : List String}

private theorem append (h : Describes chars found names addresses) (h' : Describes chars' found' names' addresses') :
    Describes (chars ++ chars') (found ++ found') (names ++ names') (addresses ++ addresses') := by
  intro rest spellings hl
  rw [List.append_assoc] at hl
  obtain ⟨front, middle, rfl, hs, hm⟩ := h _ _ hl
  obtain ⟨front', back, rfl, hs', hb⟩ := h' _ _ hm
  exact ⟨front ++ front', back, by simp, hs.append hs', hb⟩

private theorem nil : Describes [] [] [] [] :=
  fun _ spellings h ↦ ⟨[], spellings, rfl, .of_kinds (List.forall_mem_nil _), h⟩

private theorem line (h : ∀ spellings, LexesTo chars spellings → Sketches spellings found names addresses) :
    Describes (chars ++ ['\n']) found names addresses := by
  intro rest spellings hl
  rw [List.append_assoc, List.singleton_append] at hl
  obtain ⟨front, back, rfl, hf, hb⟩ := hl.line
  exact ⟨front, back, rfl, h front hf, hb⟩

private theorem heading (kind : ElementKind) (name : String) :
    Describes ("    ".toList ++ headingOf kind.word name ++ ['\n']) [(kind, name)] [name] [] := by
  refine line fun spellings hl ↦ ?_
  obtain ⟨quoted, rfl, hq⟩ := (hl.of_blanks _ rfl).heading
  have hw : (Kind.keyword kind.word).heads = true := by
    simp [Kind.heads, Kind.element?_word]
  simpa [Kind.element?_word] using Sketches.heading hw hq _ _

private theorem of_wordless (hw : Wordless chars) : Describes (chars ++ ['\n']) [] [] [] :=
  line fun _ h ↦ .of_kinds (h.element?_eq_none hw)

private theorem of_lines {lines : List String} (h : ∀ line ∈ lines, Wordless line.toList) :
    Describes (Source.ofString (String.join (lines.map stanzaLine))) [] [] [] := by
  induction lines with
  | nil => exact nil
  | cons line lines ih =>
    obtain ⟨hw, h⟩ := List.forall_mem_cons.mp h
    have hl : Wordless ("        " ++ line).toList := .append (by decide) hw
    rw [List.map_cons, String.join_cons, Source.ofString_append, stanzaLine, Source.ofString_append,
      show Source.ofString "\n" = ['\n'] from rfl]
    exact (of_wordless hl.ofString).append (ih h)

private theorem of_detailLines {properties : Properties} {details : List String}
    (h : Script.detailLines properties = .ok details) :
    Describes (Source.ofString (String.join (details.map stanzaLine))) [] [] properties.addresses := by
  cases properties with
  | institution name address events =>
    obtain ⟨number, hn, h⟩ := exists_of_bind_eq_ok h
    cases h
    have hw : Wordless ("= " ++ number).toList := .append (by decide) (Script.wordless_number hn)
    have ht : Source.ofString (String.join (["address = \"" ++ address ++ "\"", "events = " ++ number].map
        stanzaLine)) = "        ".toList ++ (Keyword.address.spelling.toList ++ ([' '] ++
          (Mark.assign.spelling.toList ++ ([' '] ++ '"' :: (Source.ofString address ++ ['"'])))) ++
        '\n' :: ("        ".toList ++ (Keyword.events.spelling.toList ++ ([' '] ++
          Source.ofString ("= " ++ number))))) ++ ['\n'] := by
      simp only [List.map_cons, List.map_nil, String.join_cons, String.join_nil, stanzaLine,
        Source.ofString_append, List.append_assoc, List.cons_append]
      rfl
    rw [ht]
    exact line fun spellings hl ↦ (hl.of_blanks _ rfl).details hw.ofString
  | street | square | statue | lake =>
    cases h
    exact nil

end Describes

variable {options : Script.Options}

private theorem Script.ofString_stanza {properties : Properties} {outline : Outline}
    (h : stanza options properties outline = .ok text) :
    ∃ details shape, detailLines properties = .ok details ∧
      shapeLines options properties.kind outline = .ok shape ∧
      Source.ofString text = "    ".toList ++ headingOf properties.kind.word properties.name ++ ['\n'] ++
        (Source.ofString (String.join (details.map stanzaLine)) ++
          Source.ofString (String.join (shape.map stanzaLine)) ++
        ("    \x7d".toList ++ ['\n'] ++ ([] ++ ['\n']))) := by
  obtain ⟨details, hd, h⟩ := exists_of_bind_eq_ok h
  obtain ⟨shape, hs, h⟩ := exists_of_bind_eq_ok h
  cases h
  have hk : Source.ofString (keyword properties.kind) = properties.kind.word.spelling.toList := by
    rw [← properties.kind.spelling_word]
    exact Source.ofString_eq (Kind.Spelled.ascii_keyword _)
  refine ⟨details, shape, hd, hs, ?_⟩
  simp only [List.map_append, String.join_append, Source.ofString_append, headingOf, hk, List.append_assoc,
    List.cons_append]
  rfl

private theorem describes_of_stanza {properties : Properties} {outline : Outline}
    (h : Script.stanza options properties outline = .ok text) :
    Describes (Source.ofString text) [(properties.kind, properties.name)] [properties.name]
      properties.addresses := by
  obtain ⟨details, shape, hd, hs, ht⟩ := Script.ofString_stanza h
  have hb : Describes ("    \x7d".toList ++ ['\n']) [] [] [] := .of_wordless (by decide)
  have he : Describes ([] ++ ['\n']) [] [] [] := .of_wordless (by decide)
  have hstanza := (Describes.heading properties.kind properties.name).append
    (((Describes.of_detailLines hd).append (.of_lines (Script.wordless_shapeLines hs))).append (hb.append he))
  rw [ht]
  simpa using hstanza

private theorem describes_of_stanzas {index : Nat} {features : List (Properties × Outline)} {texts : List String}
    (h : Script.stanzas options index features = .ok texts) :
    Describes (Source.ofString (String.join texts)) (features.map fun feature ↦ (feature.1.kind, feature.1.name))
      (features.map fun feature ↦ feature.1.name) (features.flatMap fun feature ↦ feature.1.addresses) := by
  induction features generalizing index texts with
  | nil =>
    cases h
    exact .nil
  | cons feature features ih =>
    rw [Script.stanzas] at h
    split at h
    · cases h
    · next text ht =>
      obtain ⟨more, hm, h⟩ := exists_of_bind_eq_ok h
      cases h
      rw [String.join_cons, Source.ofString_append]
      exact (describes_of_stanza ht).append (ih hm)

private theorem LexesTo.script {features : List (Properties × Outline)} {texts : List String}
    (ht : Script.stanzas options 0 features = .ok texts)
    (h : LexesTo (Source.ofString (Script.assemble options texts)) spellings) :
    Sketches spellings (features.map fun feature ↦ (feature.1.kind, feature.1.name))
      (options.cityName :: features.map fun feature ↦ feature.1.name)
      (features.flatMap fun feature ↦ feature.1.addresses) ∧
    ∃ quoted rest, spellings = (.keyword .city, Keyword.city.spelling) :: (quoted ++ rest) ∧
      Quotes options.cityName quoted := by
  have hj : Source.ofString (Script.assemble options texts) = headingOf .city options.cityName ++
      '\n' :: ('\n' :: (Source.ofString (String.join texts) ++ "\x7d\n".toList)) := by
    simp only [Script.assemble, Source.ofString_append, headingOf, List.append_assoc, List.cons_append]
    rfl
  rw [hj] at h
  obtain ⟨front, back, rfl, hf, hb⟩ := h.line
  obtain ⟨quoted, rfl, hq⟩ := hf.heading
  obtain ⟨middle, last, rfl, hm, hl⟩ := describes_of_stanzas ht _ _ (hb.of_blank rfl)
  have hr : Sketches last [] [] [] := .of_kinds (hl.element?_eq_none (by decide))
  refine ⟨?_, quoted, (.mark .openBrace, Mark.openBrace.spelling) :: (middle ++ last), by simp, hq⟩
  have hw : (Kind.keyword .city).heads = true := rfl
  have hh := (Sketches.heading hw hq Keyword.city.spelling Mark.openBrace.spelling).append (hm.append hr)
  rw [show (Kind.keyword .city).element? = none from rfl] at hh
  simpa using hh

/-! ### Scripts -/

/-- The texts that a script has in quotes. -/
def Script.texts (options : Options) (features : List (Properties × Outline)) : List String :=
  options.cityName :: features.map (fun feature ↦ feature.1.name) ++
    features.flatMap fun feature ↦ feature.1.addresses

private theorem length_addresses (features : List (Properties × Outline)) :
    (features.flatMap fun feature ↦ feature.1.addresses).length =
      (features.map fun feature ↦ (feature.1.kind, feature.1.name)).countP (·.1 = .institution) := by
  induction features with
  | nil => rfl
  | cons feature features ih =>
    have hf : feature.1.addresses.length = if feature.1.kind = .institution then 1 else 0 := by
      cases feature.1 <;> rfl
    rw [List.flatMap_cons, List.length_append, ih, hf, List.map_cons, List.countP_cons, Nat.add_comm]
    simp only [decide_eq_true_eq]

private theorem lexesTo_of_compile {source : Source} {capacity : Nat} {city : City}
    (h : (compile capacity source).result = .ok city) :
    ∃ tree : Syntax.City, LexesTo source (tree.tokens.map Token.spelling) ∧ tree.evaluation.result = .ok city := by
  obtain ⟨tree, last, ht, he⟩ := evaluation_of_compile h
  refine ⟨tree, ?_, he⟩
  obtain ⟨front, hf, hl⟩ := (lexes_of_tokenize ht).exists_lexesTo
  rw [List.map_append, List.map_singleton] at hf
  rwa [(List.append_inj' hf rfl).1]

section

variable {tokens : List Token} {found found' : List (ElementKind × String)} {heads count : Nat}
  {names addresses : List String}

private theorem Outlines.eq_of_sketches (h : Outlines tokens found heads count)
    (hs : Sketches (tokens.map Token.spelling) found' names addresses)
    (hn : ∀ text ∈ names ++ addresses, breaks text = false) : found = found' := by
  have he := hs.headings hn []
  rw [h.headings] at he
  simpa [headings] using he

private theorem Outlines.countP_breaks_le (h : Outlines tokens found heads count)
    (hs : Sketches (tokens.map Token.spelling) found' names addresses) :
    names.length + names.countP breaks ≤ heads ∧ addresses.length + addresses.countP breaks ≤ count := by
  have hk : (tokens.map Token.spelling).map Prod.fst = tokens.map Token.kind := List.map_map
  have hc := h.coherent .blank .blank .blank
  rw [← hk] at hc
  have hle := hs.heads hc
  have hle' := hs.addresses hc
  rw [hk, h.heads] at hle
  rw [hk, h.addresses] at hle'
  exact ⟨hle, hle'⟩

end

private theorem Syntax.City.unquoted_eq {tree : Syntax.City} {first : Kind × String}
    {quoted rest : List (Kind × String)}
    (h : tree.tokens.map Token.spelling = first :: (quoted ++ rest)) (hq : Quotes name quoted)
    (hn : breaks name = false) : tree.name.1.unquoted = name := by
  cases hq with
  | whole =>
    have hs : tree.name.1.spelling = _ := (List.cons.inj (List.cons.inj h).2).1
    have hl : tree.name.1.lexeme = _ := congrArg Prod.snd hs
    rw [Token.unquoted, hl, String.toList_ofList, unquote_quoted, String.ofList_toList]
  | broken hb =>
    rw [hn] at hb
    cases hb

/--
Let the script of a text be accepted. It tells about the features of the text and nothing else, and its city has
the name that was asked for, if and only if there is no quote in the texts that it has in quotes.
-/
theorem compile_script_agrees_iff [Json.Numerals] {options : Script.Options} {script : String} {capacity : Nat}
    {city : City} {features : List (Properties × Outline)} (hf : readOutlines text = .ok features)
    (hs : Script.ofText options text = .ok script)
    (hc : (compile capacity (Source.ofString script)).result = .ok city) :
    (city.name = options.cityName ∧ city.document.features.length = features.length ∧
      city.document.features.map Feature.heading =
        features.map fun feature ↦ (feature.1.kind, feature.1.name)) ↔
    ∀ text ∈ Script.texts options features, '"' ∉ text.toList := by
  rw [Script.ofText, hf] at hs
  obtain ⟨texts, ht, hs⟩ := exists_of_bind_eq_ok hs
  cases hs
  obtain ⟨tree, hl, he⟩ := lexesTo_of_compile hc
  obtain ⟨hsketch, quoted, rest, hq, hname⟩ := hl.script ht
  have houtlines := Syntax.City.outlines he
  have hfeatures : city.document.features = city.elements.map Element.feature := features_of_compile hc
  have hh : city.document.features.map Feature.heading =
      city.elements.map fun element ↦ (element.kind, element.name) := by
    rw [hfeatures, List.map_map]
    rfl
  have hlength : city.document.features.length = city.elements.length := by
    rw [hfeatures, List.length_map]
  have hbreaks (text : String) : '"' ∉ text.toList ↔ breaks text = false := by
    simp [breaks]
  simp only [hh, hlength, hbreaks]
  constructor
  · rintro ⟨_, hlen, hhead⟩
    obtain ⟨hheads, haddresses⟩ := houtlines.countP_breaks_le hsketch
    have hcount : city.elements.countP (·.kind = .institution) =
        (features.flatMap fun feature ↦ feature.1.addresses).length := by
      rw [length_addresses, ← hhead, List.countP_map]
      rfl
    -- there are no more headings and addresses than features have, so none is told twice
    have hzero : (Script.texts options features).countP breaks = 0 := by
      rw [List.length_cons, List.length_map] at hheads
      rw [Script.texts, List.countP_append]
      omega
    simpa using List.countP_eq_zero.mp hzero
  · intro hn
    have hfound := houtlines.eq_of_sketches hsketch hn
    have hcity : tree.name.1.unquoted = options.cityName :=
      Syntax.City.unquoted_eq hq hname (hn options.cityName List.mem_cons_self)
    obtain ⟨_, _, _, _, rfl⟩ := Syntax.City.builds_of_evaluation he
    exact ⟨hcity, by simpa using congrArg List.length hfound, hfound⟩

/-- A street whose name ends its own stanza and begins another one. -/
def forkingDocument : Document :=
  ⟨[⟨.street "A\" \x7bbend((0,0),(0,0),1)line((0,0),(0,0))\x7dstreet \"B",
      .lineString [⟨0, 0⟩, ⟨0, 0⟩, ⟨0, 0⟩]⟩,
    ⟨.institution "I" "C" 0, .polygon [[⟨0, 0⟩, ⟨0, 0⟩, ⟨0, 0⟩, ⟨0, 0⟩]]⟩]⟩

/-- The script of the document. -/
def forkingScript : String :=
  "city \"Maribor City 123\" \x7b\n\n"
    ++ "    street \"A\" \x7bbend((0,0),(0,0),1)line((0,0),(0,0))\x7dstreet \"B\" \x7b\n"
    ++ "        bend((0, 0), (0, 0), 1)\n        line((0, 0), (0, 0))\n    \x7d\n\n"
    ++ "    institution \"I\" \x7b\n        address = \"C\"\n        events = 0\n"
    ++ "        block((0, 0), (0, 0), (0, 0), (0, 0))\n    \x7d\n\n\x7d\n"

/-- The features of the document as they are read. -/
private def forkingFeatures : List (Properties × Outline) :=
  forkingDocument.features.map fun feature ↦ (feature.properties, feature.geometry.outline)

/-- The document is read as it is written. -/
private theorem readOutlines_forkingDocument : readOutlines forkingDocument.text = .ok forkingFeatures := by
  have hn : Json.Faithful forkingDocument.numbers := by
    decide +kernel
  rw [readOutlines_eq_ok, Document.map_returned hn]
  exact ⟨(Json.faithful_iff.mp hn).1, rfl⟩

/-- The document has the script. -/
private theorem ofText_forkingDocument : Script.ofText {} forkingDocument.text = .ok forkingScript := by
  have h : (Script.ofOutlines {} forkingFeatures).toOption = some forkingScript := by
    decide +kernel
  rw [Script.ofText, readOutlines_forkingDocument]
  change Script.ofOutlines {} forkingFeatures = .ok forkingScript
  cases hs : Script.ofOutlines {} forkingFeatures with
  | error fault =>
    rw [hs] at h
    cases h
  | ok script =>
    rw [hs] at h
    exact congrArg Except.ok (Option.some.inj h)

/-- The script compiles to three elements. -/
private theorem compile_forkingScript : ∃ city,
    (compile 4 (Source.ofString forkingScript)).result = .ok city ∧ city.elements.length = 3 := by
  have h : ((compile 4 (Source.ofString forkingScript)).result.toOption.map fun city ↦
      city.elements.length) = some 3 := by
    decide +kernel
  cases hc : (compile 4 (Source.ofString forkingScript)).result with
  | error fault =>
    rw [hc] at h
    cases h
  | ok city =>
    rw [hc] at h
    exact ⟨city, rfl, Option.some.inj h⟩

/-- The script of the document compiles, but not to the features of the document. -/
theorem compile_script_agrees_iff_forkingDocument :
    ∃ script city, Script.ofText {} forkingDocument.text = .ok script ∧
      (compile 4 (Source.ofString script)).result = .ok city ∧
      ¬ (city.name = "Maribor City 123" ∧ city.document.features.length = 2 ∧
        city.document.features.map Feature.heading = forkingDocument.features.map Feature.heading) := by
  obtain ⟨city, hc, _⟩ := compile_forkingScript
  refine ⟨forkingScript, city, ofText_forkingDocument, hc, fun hagrees ↦ ?_⟩
  have hn := (compile_script_agrees_iff readOutlines_forkingDocument ofText_forkingDocument hc).mp hagrees
  exact absurd hn (by decide +kernel)

/-- There are two features in the document and three in what its script compiles to. -/
theorem script_tells_more_than_forkingDocument :
    ∃ features script city, readOutlines forkingDocument.text = .ok features ∧
      Script.ofText {} forkingDocument.text = .ok script ∧
      (compile 4 (Source.ofString script)).result = .ok city ∧
      features.length = 2 ∧ city.document.features.length = 3 := by
  obtain ⟨city, hc, hl⟩ := compile_forkingScript
  refine ⟨_, _, city, readOutlines_forkingDocument, ofText_forkingDocument, hc, rfl, ?_⟩
  rw [City.document, features_of_compile hc, List.length_map, hl]

end Cityscape
