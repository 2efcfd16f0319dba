import Cityscape.Proofs.Decimal.Binary
import Cityscape.Proofs.Decimal.Text
import Cityscape.Proofs.Elements
import Cityscape.Proofs.Feature.Text
import Cityscape.Proofs.Invariant
import Cityscape.Proofs.Script.Lexeme
import Cityscape.Script

/-!
# Stanzas of scripts

What a script says about a feature is scanned as the tokens of an element, and the element means what the
feature describes: a number reads as itself, without the sign of a zero, and a position as a coordinate.
-/

namespace Cityscape

open Decimal (plain)

variable {rest : List Char}

/-! ### Numbers -/

private theorem Syntax.numeral_integer {text : String} {m : Nat} (h : Decimal.Reads m text.toList [] 0) :
    numeral text = Decimal.ofMagnitude false m := by
  obtain ⟨ht, hd⟩ := h.digits.takeWhile_append [] rfl
  rw [List.append_nil] at ht hd
  rw [numeral, ht, hd, Decimal.Scaled.toFloat]
  exact congrArg _ h.nearest

private theorem Syntax.numeral_double {text : String} {whole fraction : List Char} {m : Nat}
    (ht : text.toList = whole ++ '.' :: fraction) (h : Decimal.Reads m whole fraction 0) :
    numeral text = Decimal.ofMagnitude false m := by
  obtain ⟨hw, hd⟩ := h.digits.takeWhile_append ('.' :: fraction) rfl
  rw [numeral, ht, hw, hd, Decimal.Scaled.toFloat]
  exact congrArg _ h.nearest

/-- A numeral. -/
def Token.IsNumeral (token : Token) : Prop :=
  token.kind = .integer ∨ token.kind = .double

/-- The tokens of a number: a numeral, or zero, a minus and a numeral. -/
inductive Numeric : List Token → Prop where
  | numeral (token : Token) (h : token.IsNumeral) : Numeric [token]
  | difference (zero sign token : Token) (hz : zero.kind = .integer ∧ zero.lexeme = "0")
    (hs : sign.kind = .mark .minus) (h : token.IsNumeral) : Numeric [zero, sign, token]

private theorem magnitude_writes {m : Nat} (hm : m < Decimal.infinite) (hr : Separate rest) :
    Writes (Script.numeral.magnitude m) (fun operand : Syntax.Operand ↦ [operand.token])
      (fun operand ↦ operand.token.IsNumeral ∧
        ∀ scopes, operand.evaluate scopes = .ok (Decimal.ofMagnitude false m)) rest := by
  have hl := Script.numeral.layout_magnitude hm
  generalize Script.numeral.magnitude m = text at hl
  cases hl with
  | integral whole h _ =>
    have he : whole ++ Script.numeral.whole.toList = whole := List.append_nil whole
    rw [he]
    apply (Writes.leaf (.integer h.digits hr) h.digits.ascii).map .integer fun _ ↦ rfl
    intro leaf hw
    rw [← hw] at h
    exact ⟨.inl leaf.2, fun _ ↦ congrArg Except.ok (Syntax.numeral_integer h)⟩
  | fractional whole fraction hf h =>
    have ha : Ascii (whole ++ '.' :: fraction) :=
      h.digits.ascii.append (Ascii.append (show Ascii ['.'] by decide) hf.ascii)
    apply (Writes.leaf (.double h.digits hf hr) ha).map .double fun _ ↦ rfl
    intro leaf hw
    exact ⟨.inr leaf.2, fun _ ↦ congrArg Except.ok (Syntax.numeral_double hw h)⟩
  | scientific _ _ _ _ hp => cases hp

/-- A finite number in a script is a numeral, or the difference of zero and a numeral. -/
theorem numeric_writes {value : Float} (h : value.isFinite = true) :
    ∃ text, Script.number value = .ok text ∧ ∀ rest, Separate rest →
      Writes text.toList Syntax.Expression.tokens
        (fun tree ↦ Numeric tree.tokens ∧ ∀ scopes, tree.evaluate scopes = .ok (plain value)) rest := by
  have hm := Decimal.isFinite_iff.mp h
  have hv := Decimal.ofMagnitude_magnitude h
  rw [Script.number]
  simp only [if_neg (Nat.not_le_of_gt hm)]
  split_ifs with hn
  · -- A negative number is written as a difference.
    rw [Bool.and_eq_true, decide_eq_true_eq] at hn
    refine ⟨_, rfl, fun rest hr ↦ ?_⟩
    have hz : Digits ['0'] := .singleton rfl
    have ht : ("0 - " ++ String.ofList (Script.numeral.magnitude (Decimal.magnitude value))).toList =
        ['0'] ++ ((" ".toList ++ "-".toList) ++
          (" ".toList ++ Script.numeral.magnitude (Decimal.magnitude value))) := by
      simp
    rw [ht]
    refine ((Writes.leaf (.integer hz (by exact separate_cons rfl _)) hz.ascii).append
      ((Writes.blanks _ (by decide) (.sign .minus nofun)).append
        (.blanks _ (by decide) (magnitude_writes hm hr)))).map
      (fun (zero, sign, operand) ↦ .chain (.integer zero) .minus sign (.last operand)) (fun _ ↦ rfl) ?_
    rintro ⟨zero, sign, operand⟩ ⟨hl, _, hk, ho⟩
    have hl' : zero.1.lexeme = "0" := String.toList_inj.mp hl
    refine ⟨.difference zero.1 sign.1 operand.token ⟨zero.2, hl'⟩ sign.2 hk, fun scopes ↦ ?_⟩
    have h0 : Syntax.numeral zero.1.lexeme = Decimal.ofMagnitude false 0 := by
      apply Syntax.numeral_integer
      rw [hl]
      exact ⟨hz, (fun _ h ↦ nomatch h), .inl rfl, rfl⟩
    have he : plain value = value := if_neg hn.2
    change (do
      let left ← Except.ok (Syntax.numeral zero.1.lexeme)
      let right ← operand.evaluate scopes
      return left - right) = _
    rw [hn.1] at hv
    rw [ho scopes, h0, he]
    exact congrArg Except.ok ((Decimal.zero_sub_ofMagnitude hm hn.2).trans hv)
  · refine ⟨_, rfl, fun rest hr ↦ ?_⟩
    rw [String.toList_ofList]
    apply (magnitude_writes hm hr).map .last fun _ ↦ rfl
    rintro operand ⟨hk, ho⟩
    have he : plain value = Decimal.ofMagnitude false (Decimal.magnitude value) := by
      rw [plain]
      split_ifs with hz
      · rw [hz]
      · have hs : Decimal.isNegative value = false := by simpa [hz] using hn
        rw [← hs, hv]
    rw [he]
    exact ⟨.numeral operand.token hk, ho⟩

/-- A text that is scanned as an expression for this number. -/
def Amounts (text : String) (number : Float) : Prop :=
  ∀ rest, Separate rest → Writes text.toList Syntax.Expression.tokens
    (fun tree ↦ ∀ scopes, tree.evaluate scopes = .ok number) rest

/-- A finite number in a script is an expression for it, without the sign of a zero. -/
theorem number_writes {value : Float} (h : value.isFinite = true) :
    ∃ text, Script.number value = .ok text ∧ Amounts text (plain value) := by
  obtain ⟨text, ht, hw⟩ := numeric_writes h
  exact ⟨text, ht, fun rest hr ↦ (hw rest hr).map id (fun _ ↦ rfl) fun _ hg ↦ hg.2⟩

/-! ### Positions -/

/-- Whether both numbers of a position are finite. -/
def LatLon.Finite (position : LatLon) : Prop :=
  position.latitude.isFinite = true ∧ position.longitude.isFinite = true

/-- The place that a position is read as. -/
def LatLon.place (position : LatLon) : Coordinate :=
  .anonymous (plain position.longitude) (plain position.latitude)

/-- A text that is scanned as a coordinate for this place, whatever follows it. -/
def Places (text : String) (place : Coordinate) : Prop :=
  ∀ rest, Writes text.toList Syntax.Coordinate.tokens
    (fun tree ↦ ∀ scopes, tree.evaluate scopes = .ok place) rest

/-- A position in a script. -/
theorem coordinate_writes {position : LatLon} (h : position.Finite) :
    ∃ text, Script.coordinate position = .ok text ∧ Places text position.place := by
  obtain ⟨longitude, hx, hwx⟩ := number_writes h.2
  obtain ⟨latitude, hy, hwy⟩ := number_writes h.1
  refine ⟨"(" ++ longitude ++ ", " ++ latitude ++ ")", ?_, fun rest ↦ ?_⟩
  · rw [Script.coordinate, hx, hy]
    rfl
  · have ht : ("(" ++ longitude ++ ", " ++ latitude ++ ")").toList = "(".toList ++ (longitude.toList ++
        (",".toList ++ ((" ".toList ++ latitude.toList) ++ ")".toList))) := by
      simp
    rw [ht]
    refine ((Writes.sign .openParen nofun).append ((hwx _ (by exact separate_cons rfl _)).append
      ((Writes.sign .comma nofun).append ((Writes.blanks _ (by decide)
        (hwy _ (by exact separate_cons rfl _))).append (.sign .closeParen nofun))))).map
      (fun (opening, x, comma, y, closing) ↦
        .pair opening (.expression x) comma (.expression y) closing) (fun _ ↦ rfl) ?_
    rintro ⟨opening, x, comma, y, closing⟩ ⟨_, hx, _, hy, _⟩ scopes
    change (do
      let x ← x.evaluate scopes
      let y ← y.evaluate scopes
      return Coordinate.anonymous x y) = _
    rw [hx scopes, hy scopes]
    rfl

/-! ### Primitives -/

private theorem bend_writes {start finish angle : String} {first second : Coordinate} {degrees : Float}
    (hs : Places start first) (hf : Places finish second) (ha : Amounts angle degrees) (rest : List Char) :
    Writes ("bend(" ++ start ++ ", " ++ finish ++ ", " ++ angle ++ ")").toList Syntax.Bend.tokens
      (fun tree ↦ ∀ scopes, tree.evaluate scopes =
        .ok ((first.renamed "bendFirst").bend (second.renamed "bendSecond") degrees)) rest := by
  have ht : ("bend(" ++ start ++ ", " ++ finish ++ ", " ++ angle ++ ")").toList = "bend".toList ++
      ("(".toList ++ (start.toList ++ (",".toList ++ ((" ".toList ++ finish.toList) ++ (",".toList ++
        ((" ".toList ++ angle.toList) ++ ")".toList)))))) := by
    simp
  rw [ht]
  refine ((Writes.word .bend (by exact separate_cons rfl _)).append ((Writes.sign .openParen nofun).append
    ((hs _).append ((Writes.sign .comma nofun).append ((Writes.blanks _ (by decide) (hf _)).append
      ((Writes.sign .comma nofun).append ((Writes.blanks _ (by decide)
        (ha _ (by exact separate_cons rfl _))).append (.sign .closeParen nofun)))))))).map
    (fun (word, opening, start, comma, finish, comma', angle, closing) ↦
      ⟨word, opening, start, comma, finish, comma', angle, closing⟩) (fun _ ↦ rfl) ?_
  rintro ⟨word, opening, start, comma, finish, comma', angle, closing⟩ ⟨_, _, hs, _, hf, _, ha, _⟩ scopes
  simp only [Syntax.Bend.evaluate, Syntax.Coordinate.place, hs scopes, hf scopes, ha scopes]
  rfl

private theorem line_writes {start finish : String} {first second : Coordinate}
    (hs : Places start first) (hf : Places finish second) (rest : List Char) :
    Writes ("line(" ++ start ++ ", " ++ finish ++ ")").toList Syntax.Line.tokens
      (fun tree ↦ ∀ scopes, tree.evaluate scopes =
        .ok ⟨first.renamed "first", second.renamed "second"⟩) rest := by
  have ht : ("line(" ++ start ++ ", " ++ finish ++ ")").toList = "line".toList ++ ("(".toList ++
      (start.toList ++ (",".toList ++ ((" ".toList ++ finish.toList) ++ ")".toList)))) := by
    simp
  rw [ht]
  refine ((Writes.word .line (by exact separate_cons rfl _)).append ((Writes.sign .openParen nofun).append
    ((hs _).append ((Writes.sign .comma nofun).append ((Writes.blanks _ (by decide) (hf _)).append
      (.sign .closeParen nofun)))))).map
    (fun (word, opening, first, comma, second, closing) ↦ ⟨word, opening, first, comma, second, closing⟩)
    (fun _ ↦ rfl) ?_
  rintro ⟨word, opening, first, comma, second, closing⟩ ⟨_, _, hs, _, hf, _⟩ scopes
  simp only [Syntax.Line.evaluate, Syntax.Coordinate.place, hs scopes, hf scopes]
  rfl

private theorem block_writes {a b c d : String} {first second third fourth : Coordinate} (ha : Places a first)
    (hb : Places b second) (hc : Places c third) (hd : Places d fourth) (rest : List Char) :
    Writes ("block(" ++ ", ".intercalate [a, b, c, d] ++ ")").toList Syntax.Block.tokens
      (fun tree ↦ ∀ scopes, tree.evaluate scopes = .ok ⟨first.renamed "first", second.renamed "second",
        third.renamed "third", fourth.renamed "fourth"⟩) rest := by
  have ht : ("block(" ++ ", ".intercalate [a, b, c, d] ++ ")").toList = "block".toList ++ ("(".toList ++
      (a.toList ++ (",".toList ++ ((" ".toList ++ b.toList) ++ (",".toList ++ ((" ".toList ++ c.toList) ++
        (",".toList ++ ((" ".toList ++ d.toList) ++ ")".toList)))))))) := by
    simp
  rw [ht]
  refine ((Writes.word .block (by exact separate_cons rfl _)).append ((Writes.sign .openParen nofun).append
    ((ha _).append ((Writes.sign .comma nofun).append ((Writes.blanks _ (by decide) (hb _)).append
      ((Writes.sign .comma nofun).append ((Writes.blanks _ (by decide) (hc _)).append
        ((Writes.sign .comma nofun).append ((Writes.blanks _ (by decide) (hd _)).append
          (.sign .closeParen nofun)))))))))).map
    (fun (word, opening, first, comma, second, comma', third, comma'', fourth, closing) ↦
      ⟨word, opening, first, comma, second, comma', third, comma'', fourth, closing⟩) (fun _ ↦ rfl) ?_
  rintro ⟨word, opening, first, comma, second, comma', third, comma'', fourth, closing⟩
    ⟨_, _, ha, _, hb, _, hc, _, hd, _⟩ scopes
  simp only [Syntax.Block.evaluate, Syntax.Coordinate.place, ha scopes, hb scopes, hc scopes, hd scopes]
  rfl

private theorem circle_writes {center radius : String} {place : Coordinate} {length : Float}
    (hc : Places center place) (hr : Amounts radius length) (rest : List Char) :
    Writes ("circle(" ++ center ++ ", " ++ radius ++ ")").toList Syntax.Circle.tokens
      (fun tree ↦ ∀ scopes, tree.evaluate scopes = .ok (place.renamed "center", length)) rest := by
  have ht : ("circle(" ++ center ++ ", " ++ radius ++ ")").toList = "circle".toList ++ ("(".toList ++
      (center.toList ++ (",".toList ++ ((" ".toList ++ radius.toList) ++ ")".toList)))) := by
    simp
  rw [ht]
  refine ((Writes.word .circle (by exact separate_cons rfl _)).append ((Writes.sign .openParen nofun).append
    ((hc _).append ((Writes.sign .comma nofun).append ((Writes.blanks _ (by decide)
      (hr _ (by exact separate_cons rfl _))).append (.sign .closeParen nofun)))))).map
    (fun (word, opening, center, comma, radius, closing) ↦ ⟨word, opening, center, comma, radius, closing⟩)
    (fun _ ↦ rfl) ?_
  rintro ⟨word, opening, center, comma, radius, closing⟩ ⟨_, _, hc, _, hr, _⟩ scopes
  simp only [Syntax.Circle.evaluate, Syntax.Coordinate.place, hc scopes, hr scopes]
  rfl

/-- A string literal in a script. -/
theorem literal_writes {text : String} (h : Quotable text.toList) (rest : List Char) :
    Writes ("\"" ++ text ++ "\"").toList (fun leaf : Syntax.Leaf .string ↦ [leaf.1])
      (fun leaf ↦ leaf.1.unquoted = text) rest := by
  have ht : ("\"" ++ text ++ "\"").toList = '"' :: (text.toList ++ ['"']) := by
    simp
  rw [ht]
  have ha : Ascii ('"' :: (text.toList ++ ['"'])) :=
    Ascii.append (show Ascii ['"'] by decide) (h.ascii.append (by decide))
  refine (Writes.leaf (.string h rest) ha).map id (fun _ ↦ rfl) ?_
  intro leaf hl
  rw [id, Token.unquoted, hl, unquote, List.getLast?_concat, if_pos rfl, List.dropLast_concat,
    String.ofList_toList]

private theorem address_writes {text : String} (h : Quotable text.toList) (rest : List Char) :
    Writes ("address = \"" ++ text ++ "\"").toList Syntax.Address.tokens
      (fun tree ↦ ∀ scopes, tree.value.evaluate scopes = .ok text) rest := by
  have ht : ("address = \"" ++ text ++ "\"").toList = "address".toList ++ ((" ".toList ++ "=".toList) ++
      (" ".toList ++ ("\"" ++ text ++ "\"").toList)) := by
    simp
  rw [ht]
  refine ((Writes.word .address (by exact separate_cons rfl _)).append ((Writes.blanks _ (by decide)
    (.sign .assign fun _ ↦ by exact separate_cons rfl _)).append (.blanks _ (by decide)
      (literal_writes h rest)))).map (fun (word, assign, text) ↦ ⟨word, assign, .literal text⟩)
    (fun _ ↦ rfl) ?_
  rintro ⟨word, assign, text⟩ ⟨_, _, ht⟩ scopes
  exact congrArg Except.ok ht

private theorem events_writes {text : String} {number : Float} (h : Amounts text number) (hr : Separate rest) :
    Writes ("events = " ++ text).toList Syntax.Events.tokens
      (fun tree ↦ ∀ scopes, tree.value.evaluate scopes = .ok number) rest := by
  have ht : ("events = " ++ text).toList = "events".toList ++ ((" ".toList ++ "=".toList) ++
      (" ".toList ++ text.toList)) := by
    simp
  rw [ht]
  refine ((Writes.word .events (by exact separate_cons rfl _)).append ((Writes.blanks _ (by decide)
    (.sign .assign fun _ ↦ by exact separate_cons rfl _)).append (.blanks _ (by decide) (h rest hr)))).map
    (fun (word, assign, value) ↦ ⟨word, assign, value⟩) (fun _ ↦ rfl) ?_
  rintro ⟨word, assign, value⟩ ⟨_, _, hv⟩
  exact hv

/-! ### Elements -/

/-- The contents of the elements with this keyword. -/
abbrev Contents (group : Syntax.Group) (word : Keyword) :=
  { content : Syntax.Content group // content.keyword = word }

/-- The line of a stanza with this text. -/
def stanzaLine (text : String) : String :=
  "        " ++ text ++ "\n"

private theorem Writes.line {α : Type} {text : String} {tokens : α → List Token} {good : α → Prop}
    (h : Writes text.toList tokens good ("\n".toList ++ rest)) :
    Writes (stanzaLine text).toList tokens good rest := by
  have ht : (stanzaLine text).toList = "        ".toList ++ (text.toList ++ "\n".toList) := by
    simp [stanzaLine]
  rw [ht]
  exact .blanks _ (by decide) (.trailing _ (by decide) h)

/-- What the tree of a stanza without operations has to be. -/
structure Tells (word : Keyword) (element : Element) {group : Syntax.Group} (tree : Syntax.Element group) :
    Prop where
  keyword : tree.content.keyword = word
  operations : tree.operations = .done
  content : ∀ scopes, tree.content.evaluate tree.name.1.unquoted scopes = .ok element

private theorem frame_writes {group : Syntax.Group} {word : Keyword} {name lines : String} {element : Element}
    (hn : Quotable name.toList)
    (hc : ∀ rest, Writes lines.toList (fun content : Contents group word ↦ content.1.tokens)
      (fun content ↦ ∀ scopes, content.1.evaluate name scopes = .ok element) rest) (rest : List Char) :
    Writes ("    " ++ word.spelling ++ " \"" ++ name ++ "\" \x7b\n" ++ lines ++ "    \x7d\n\n").toList
      (fun tree : Syntax.Element group ↦ tree.tokens) (Tells word element) rest := by
  have ht : ("    " ++ word.spelling ++ " \"" ++ name ++ "\" \x7b\n" ++ lines ++ "    \x7d\n\n").toList =
      ("    ".toList ++ word.spelling.toList) ++ ((" ".toList ++ ("\"" ++ name ++ "\"").toList) ++
        ((" ".toList ++ "\x7b".toList) ++ (("\n".toList ++ lines.toList) ++
          (("    ".toList ++ "\x7d".toList) ++ "\n\n".toList)))) := by
    simp
  rw [ht]
  refine ((Writes.blanks _ (by decide) (Writes.word word (by exact separate_cons rfl _))).append
    ((Writes.blanks _ (by decide) (literal_writes hn _)).append ((Writes.blanks _ (by decide)
      (Writes.sign .openBrace nofun)).append ((Writes.blanks _ (by decide) (hc _)).append
        (.trailing _ (by decide) (.blanks _ (by decide) (Writes.sign .closeBrace nofun))))))).map
    (fun (word, name, opening, content, closing) ↦
      ⟨content.1, ⟨word.1, by rw [content.2]; exact word.2⟩, name, opening, .done, closing⟩) (fun _ ↦ rfl) ?_
  rintro ⟨word, name, opening, content, closing⟩ ⟨_, hn, _, hc, _⟩
  refine ⟨content.2, rfl, fun scopes ↦ ?_⟩
  rw [hn]
  exact hc scopes

/-! ### Features -/

/-- The block with these corners. -/
def corners (first second third fourth : LatLon) : Block :=
  ⟨first.place.renamed "first", second.place.renamed "second", third.place.renamed "third",
    fourth.place.renamed "fourth"⟩

/-- The element that a script tells about a feature. -/
inductive Restores (options : Script.Options) : Feature → Element → Prop where
  | street (name : String) {first second third : LatLon} {more : List LatLon}
    (h : ∀ position ∈ first :: second :: third :: more, position.Finite) :
    Restores options ⟨.street name, .lineString (first :: second :: third :: more)⟩
      (.street name ((first.place.renamed "bendFirst").bend (second.place.renamed "bendSecond")
        (plain options.bendAngle)) ⟨second.place.renamed "first", third.place.renamed "second"⟩)
  | institution (name address : String) {events : Float} {first second third fourth : LatLon}
    {more : List LatLon} {rings : List (List LatLon)} (he : events.isFinite = true)
    (h : ∀ position ∈ first :: second :: third :: fourth :: more, position.Finite) :
    Restores options ⟨.institution name address events,
        .polygon ((first :: second :: third :: fourth :: more) :: rings)⟩
      (.institution name address (plain events) (corners first second third fourth))
  | square (name : String) {first second third fourth : LatLon} {more : List LatLon}
    {rings : List (List LatLon)}
    (h : ∀ position ∈ first :: second :: third :: fourth :: more, position.Finite) :
    Restores options ⟨.square name, .polygon ((first :: second :: third :: fourth :: more) :: rings)⟩
      (.square name (corners first second third fourth))
  | statue (name : String) {position : LatLon} (h : position.Finite) :
    Restores options ⟨.statue name, .point position⟩ (.statue name (position.place.renamed "point"))
  | lake (name : String) {center : LatLon} {more : List LatLon} {rings : List (List LatLon)}
    (h : center.Finite) :
    Restores options ⟨.lake name, .polygon ((center :: more) :: rings)⟩
      (.lakeAround name (center.place.renamed "center") (plain options.lakeRadius))

/-- What a script can say: a quotable name and finite numbers. -/
structure Script.Options.Sound (options : Script.Options) : Prop where
  cityName : Quotable options.cityName.toList
  bendAngle : options.bendAngle.isFinite = true
  lakeRadius : options.lakeRadius.isFinite = true

/-- A keyword is spelled as scripts write it. -/
theorem ElementKind.spelling_word (kind : ElementKind) : kind.word.spelling = Script.keyword kind := by
  cases kind <;> rfl

private theorem Properties.Sound.name {properties : Properties} (h : properties.Sound) :
    Quotable properties.name.toList := by
  cases properties with
  | institution => exact h.1
  | _ => exact h

/-- A finite number is read as it was written. -/
theorem ofDouble_eq {number : Float} (h : number.isFinite = true) :
    Json.Reader.ofDouble number = .double number :=
  if_pos h

private theorem position_reread {position : LatLon} (h : position.Finite) :
    Script.position position.reread = .ok position := by
  rw [LatLon.reread, ofDouble_eq h.1, ofDouble_eq h.2]
  rfl

private theorem positions_reread {positions : List LatLon} (h : ∀ position ∈ positions, position.Finite) :
    Script.positions (.array (positions.map LatLon.reread)) = .ok positions := by
  change (positions.map LatLon.reread).mapM Script.position = .ok positions
  induction positions with
  | nil => rfl
  | cons position positions ih =>
    rw [List.map_cons, List.mapM_cons, position_reread (h position List.mem_cons_self),
      ih fun p hp ↦ h p (List.mem_cons_of_mem position hp)]
    rfl

private theorem streetLines_writes {options : Script.Options} (ho : options.Sound) {first second third : LatLon}
    {more : List LatLon} (h : ∀ position ∈ first :: second :: third :: more, position.Finite) :
    ∃ bend line, Script.streetLines options
        (Geometry.reread (.lineString (first :: second :: third :: more))) = .ok [bend, line] ∧
      (∀ rest, Writes bend.toList Syntax.Bend.tokens (fun tree ↦ ∀ scopes, tree.evaluate scopes =
        .ok ((first.place.renamed "bendFirst").bend (second.place.renamed "bendSecond")
          (plain options.bendAngle))) rest) ∧
      ∀ rest, Writes line.toList Syntax.Line.tokens (fun tree ↦ ∀ scopes, tree.evaluate scopes =
        .ok ⟨second.place.renamed "first", third.place.renamed "second"⟩) rest := by
  obtain ⟨a, ha, hwa⟩ := coordinate_writes (h first (by simp))
  obtain ⟨b, hb, hwb⟩ := coordinate_writes (h second (by simp))
  obtain ⟨c, hc, hwc⟩ := coordinate_writes (h third (by simp))
  obtain ⟨angle, hn, hwn⟩ := number_writes ho.bendAngle
  refine ⟨_, _, ?_, bend_writes hwa hwb hwn, line_writes hwb hwc⟩
  rw [Script.streetLines, Geometry.reread, positions_reread h]
  simp only [ha, hb, hc, hn, bind, Except.bind, pure, Except.pure]

private theorem blockLines_writes {first second third fourth : LatLon} {more : List LatLon}
    (rings : List (List LatLon))
    (h : ∀ position ∈ first :: second :: third :: fourth :: more, position.Finite) :
    ∃ text, Script.blockLines (Geometry.reread (.polygon
        ((first :: second :: third :: fourth :: more) :: rings))) = .ok [text] ∧
      ∀ rest, Writes text.toList Syntax.Block.tokens
        (fun tree ↦ ∀ scopes, tree.evaluate scopes = .ok (corners first second third fourth)) rest := by
  obtain ⟨a, ha, hwa⟩ := coordinate_writes (h first (by simp))
  obtain ⟨b, hb, hwb⟩ := coordinate_writes (h second (by simp))
  obtain ⟨c, hc, hwc⟩ := coordinate_writes (h third (by simp))
  obtain ⟨d, hd, hwd⟩ := coordinate_writes (h fourth (by simp))
  refine ⟨_, ?_, block_writes hwa hwb hwc hwd⟩
  have hr : Script.orRefuse .noRing (Script.firstItem? (Geometry.reread (.polygon
      ((first :: second :: third :: fourth :: more) :: rings)))) =
      .ok (.array ((first :: second :: third :: fourth :: more).map LatLon.reread)) := rfl
  have hm : ((first :: second :: third :: fourth :: more).take 4).mapM Script.coordinate =
      .ok [a, b, c, d] := by
    simp only [List.take_succ_cons, List.take_zero, List.mapM_cons, ha, hb, hc, hd]
    rfl
  have hl : ¬ (first :: second :: third :: fourth :: more).length < 4 := by
    simp
  rw [Script.blockLines, hr]
  simp only [positions_reread h, hl, hm, if_false, bind, Except.bind, pure, Except.pure]

private theorem pointLines_writes {position : LatLon} (h : position.Finite) :
    ∃ text, Script.pointLines (Geometry.reread (.point position)) = .ok ["point " ++ text] ∧
      Places text position.place := by
  obtain ⟨text, ht, hw⟩ := coordinate_writes h
  refine ⟨text, ?_, hw⟩
  rw [Script.pointLines, Geometry.reread, position_reread h]
  simp only [ht, bind, Except.bind, pure, Except.pure]

private theorem circleLines_writes {options : Script.Options} (ho : options.Sound) {center : LatLon}
    (more : List LatLon) (rings : List (List LatLon)) (h : center.Finite) :
    ∃ text, Script.circleLines options (Geometry.reread (.polygon ((center :: more) :: rings))) =
        .ok [text] ∧
      ∀ rest, Writes text.toList Syntax.Circle.tokens (fun tree ↦ ∀ scopes, tree.evaluate scopes =
        .ok (center.place.renamed "center", plain options.lakeRadius)) rest := by
  obtain ⟨place, hp, hwp⟩ := coordinate_writes h
  obtain ⟨radius, hr, hwr⟩ := number_writes ho.lakeRadius
  refine ⟨_, ?_, circle_writes hwp hwr⟩
  have hc : Script.orRefuse .noCenter (Script.firstItem? (Geometry.reread
      (.polygon ((center :: more) :: rings))) >>= Script.firstItem?) = .ok center.reread := rfl
  rw [Script.circleLines, hc]
  simp only [position_reread h, hp, hr, bind, Except.bind, pure, Except.pure]

private theorem stanza_of_lines {options : Script.Options} {properties : Properties} {outline : Outline}
    {details shape : List String} {element : Element} (hd : Script.detailLines properties = .ok details)
    (hs : Script.shapeLines options properties.kind outline = .ok shape)
    (hn : Quotable properties.name.toList)
    (hc : ∀ rest, Writes (String.join ((details ++ shape).map stanzaLine)).toList
      (fun content : Contents properties.kind.group properties.kind.word ↦ content.1.tokens)
      (fun content ↦ ∀ scopes, content.1.evaluate properties.name scopes = .ok element) rest) :
    ∃ text, Script.stanza options properties outline = .ok text ∧ ∀ rest,
      Writes text.toList (fun tree : Syntax.Element properties.kind.group ↦ tree.tokens)
        (Tells properties.kind.word element) rest := by
  refine ⟨_, ?_, frame_writes hn hc⟩
  rw [Script.stanza, hd, hs, ElementKind.spelling_word]
  rfl

private theorem stanza_of_line {options : Script.Options} {properties : Properties} {outline : Outline}
    {text : String} {element : Element} (hd : Script.detailLines properties = .ok [])
    (hs : Script.shapeLines options properties.kind outline = .ok [text])
    (hn : Quotable properties.name.toList)
    (hc : ∀ rest, Writes text.toList
      (fun content : Contents properties.kind.group properties.kind.word ↦ content.1.tokens)
      (fun content ↦ ∀ scopes, content.1.evaluate properties.name scopes = .ok element) rest) :
    ∃ text, Script.stanza options properties outline = .ok text ∧ ∀ rest,
      Writes text.toList (fun tree : Syntax.Element properties.kind.group ↦ tree.tokens)
        (Tells properties.kind.word element) rest := by
  refine stanza_of_lines hd hs hn fun rest ↦ ?_
  have ht : (String.join (([] ++ [text]).map stanzaLine)).toList = (stanzaLine text).toList := by
    simp
  rw [ht]
  exact (hc _).line

/-- The stanza of a feature tells its element. -/
theorem stanza_writes {options : Script.Options} (ho : options.Sound) {feature : Feature} {element : Element}
    (h : Restores options feature element) (hs : feature.properties.Sound) :
    ∃ text, Script.stanza options feature.properties feature.geometry.outline = .ok text ∧ ∀ rest,
      Writes text.toList (fun tree : Syntax.Element feature.properties.kind.group ↦ tree.tokens)
        (Tells feature.properties.kind.word element) rest := by
  cases h with
  | street name h =>
    obtain ⟨bend, line, hl, hb, hw⟩ := streetLines_writes ho h
    refine stanza_of_lines rfl hl hs.name fun rest ↦ ?_
    have ht : (String.join (([] ++ [bend, line]).map stanzaLine)).toList =
        (stanzaLine bend).toList ++ (stanzaLine line).toList := by
      simp
    rw [ht]
    refine ((hb _).line.append (hw _).line).map (fun (bend, line) ↦ ⟨.street bend line, rfl⟩)
      (fun _ ↦ rfl) ?_
    rintro ⟨bend, line⟩ ⟨hb, hl⟩ scopes
    simp only [Syntax.Content.evaluate, hb scopes, hl scopes]
    rfl
  | @institution name address events _ _ _ _ _ rings he h =>
    obtain ⟨text, hl, hw⟩ := blockLines_writes rings h
    obtain ⟨number, hn, hwn⟩ := number_writes he
    have hd : Script.detailLines (.institution name address events) =
        .ok ["address = \"" ++ address ++ "\"", "events = " ++ number] := by
      rw [Script.detailLines, hn]
      rfl
    refine stanza_of_lines hd hl hs.name fun rest ↦ ?_
    have ht : (String.join ((["address = \"" ++ address ++ "\"", "events = " ++ number] ++
        [text]).map stanzaLine)).toList = (stanzaLine ("address = \"" ++ address ++ "\"")).toList ++
          ((stanzaLine ("events = " ++ number)).toList ++ (stanzaLine text).toList) := by
      simp
    rw [ht]
    refine ((address_writes hs.2 _).line.append
      ((events_writes hwn (by exact separate_cons rfl _)).line.append (hw _).line)).map
      (fun (address, events, block) ↦ ⟨.institution address events block, rfl⟩) (fun _ ↦ rfl) ?_
    rintro ⟨address, events, block⟩ ⟨ha, he, hb⟩ scopes
    simp only [Syntax.Content.evaluate, ha scopes, he scopes, hb scopes]
    rfl
  | @square name _ _ _ _ _ rings h =>
    obtain ⟨text, hl, hw⟩ := blockLines_writes rings h
    refine stanza_of_line rfl hl hs.name fun rest ↦ ?_
    refine (hw _).map (fun block ↦ ⟨.square block, rfl⟩) (fun _ ↦ rfl) ?_
    intro block hb scopes
    simp only [Syntax.Content.evaluate, hb scopes]
    rfl
  | statue name h =>
    obtain ⟨text, hl, hw⟩ := pointLines_writes h
    refine stanza_of_line rfl hl hs.name fun rest ↦ ?_
    have hp : ("point " ++ text).toList = "point".toList ++ (" ".toList ++ text.toList) := by
      simp
    rw [hp]
    refine ((Writes.word .point (by exact separate_cons rfl _)).append
      (.blanks _ (by decide) (hw _))).map (fun (word, place) ↦ ⟨.statue word place, rfl⟩) (fun _ ↦ rfl) ?_
    rintro ⟨word, place⟩ ⟨_, hp⟩ scopes
    simp only [Syntax.Content.evaluate, Syntax.Coordinate.place, hp scopes]
    rfl
  | @lake name _ more rings h =>
    obtain ⟨text, hl, hw⟩ := circleLines_writes ho more rings h
    refine stanza_of_line rfl hl hs.name fun rest ↦ ?_
    refine (hw _).map (fun circle ↦ ⟨.lake circle, rfl⟩) (fun _ ↦ rfl) ?_
    intro circle hc scopes
    simp only [Syntax.Content.evaluate, hc scopes]
    rfl

end Cityscape
