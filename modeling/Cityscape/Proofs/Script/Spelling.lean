import Cityscape.Proofs.Script.Featurewise

/-!
# Documents in other spellings

A document can be written in many ways: records as objects with their fields in any order and with others between
them, or as arrays; whole numbers with a point or without one. The loose reader keeps what it finds, so a script is
put together from different outlines then. But all stanzas look at positions only as far as the spellings agree, and
so the script is that of the document, or the same feature has no stanza.
-/

namespace Cityscape

/-- A list of accepted values is an array of them. -/
theorem listOfJson?_eq_some {α : Type} {item? : Json → Option α} {value : Json} {found : List α}
    (h : listOfJson? item? value = some found) :
    ∃ items, value = .array items ∧ List.Forall₂ (fun item a ↦ item? item = some a) items found := by
  obtain ⟨items, hi, hm⟩ := Option.bind_eq_some_iff.mp h
  clear h
  cases value with
  | array values =>
    cases hi
    refine ⟨items, rfl, ?_⟩
    induction items generalizing found with
    | nil =>
      cases hm
      exact .nil
    | cons item items ih =>
      rw [List.mapM_cons] at hm
      obtain ⟨a, ha, hm⟩ := Option.bind_eq_some_iff.mp hm
      obtain ⟨rest, hr, hm⟩ := Option.bind_eq_some_iff.mp hm
      cases hm
      exact .cons ha (ih hr)
  | _ => cases hi

private theorem Outline.Draws.reads {outline : Outline} {geometry : Geometry} (h : outline.Draws geometry) :
    match geometry with
    | .point place => LatLon.ofJson? outline.coordinates = some place
    | .lineString places => listOfJson? LatLon.ofJson? outline.coordinates = some places
    | .polygon rings => listOfJson? (listOfJson? LatLon.ofJson?) outline.coordinates = some rings := by
  have hc := h.coordinates
  cases geometry <;>
  · obtain ⟨found, hf, he⟩ := Option.bind_eq_some_iff.mp hc
    cases he
    exact hf

namespace Script

variable {options : Options} {value : Json}

/-- The positions of the first ring, if all of them are positions. -/
def ring? (value : Json) : Option (List LatLon) :=
  value.first?.bind fun ring ↦ (positions ring).toOption

/-- The position that a circle is centred on. -/
def center? (value : Json) : Option LatLon :=
  (value.first?.bind Json.first?).bind fun center ↦ (position center).toOption

/-- A pair of numbers is a position, and it begins with a number. -/
theorem position_of_ofJson? {place : LatLon} (h : LatLon.ofJson? value = some place) :
    position value = .ok place ∧ ∃ first, value.first? = some first ∧ first.isNumber = true := by
  unfold LatLon.ofJson? at h
  split at h
  · next latitude longitude =>
    obtain ⟨x, hx, h⟩ := Option.bind_eq_some_iff.mp h
    obtain ⟨y, hy, h⟩ := Option.bind_eq_some_iff.mp h
    cases h
    exact ⟨by rw [position, hx, hy], latitude, rfl, number?_eq_some hx⟩
  · cases h

private theorem center?_of_ofJson? {place : LatLon} (h : LatLon.ofJson? value = some place) : center? value = none := by
  obtain ⟨_, first, hf, hn⟩ := position_of_ofJson? h
  rw [center?, hf]
  cases first <;> first | rfl | cases hn

private theorem positions_of_listOfJson? {places : List LatLon} (h : listOfJson? LatLon.ofJson? value = some places) :
    positions value = .ok places ∧ (value.first?.bind fun first ↦ (position first).toOption) = places.head? := by
  obtain ⟨items, rfl, hi⟩ := listOfJson?_eq_some h
  refine ⟨mapM_eq_ok_iff.mpr (hi.imp fun _ _ hp ↦ (position_of_ofJson? hp).1), ?_⟩
  cases hi with
  | nil => rfl
  | cons hp =>
    rw [Json.first?, Option.bind_some, (position_of_ofJson? hp).1]
    rfl

private theorem center?_of_listOfJson? {places : List LatLon} (h : listOfJson? LatLon.ofJson? value = some places) :
    center? value = none := by
  obtain ⟨items, rfl, hi⟩ := listOfJson?_eq_some h
  cases hi with
  | nil => rfl
  | cons hp =>
    obtain ⟨_, first, hf, hn⟩ := position_of_ofJson? hp
    rw [center?, Json.first?, Option.bind_some, hf]
    cases first <;> first | rfl | cases hn

private theorem ring?_of_listOfJson? {rings : List (List LatLon)}
    (h : listOfJson? (listOfJson? LatLon.ofJson?) value = some rings) :
    ring? value = rings.head? ∧ center? value = rings.head?.bind List.head? := by
  obtain ⟨items, rfl, hi⟩ := listOfJson?_eq_some h
  cases hi with
  | nil => exact ⟨rfl, rfl⟩
  | cons hr =>
    obtain ⟨hp, hf⟩ := positions_of_listOfJson? hr
    refine ⟨?_, ?_⟩
    · rw [ring?, Json.first?, Option.bind_some, hp]
      rfl
    · rw [center?, Json.first?, Option.bind_some, hf]
      rfl

variable {coordinates coordinates' : Json}

private theorem streetLines_toOption (options : Options)
    (h : (positions coordinates).toOption = (positions coordinates').toOption) :
    (streetLines options coordinates).toOption = (streetLines options coordinates').toOption := by
  rw [streetLines, streetLines, toOption_bind, toOption_bind, h]

private theorem toOption_orRefuse {α : Type} (reason : Reason) (found : Option α) :
    (orRefuse reason found).toOption = found := by
  cases found <;> rfl

private theorem blockLines_toOption (h : ring? coordinates = ring? coordinates') :
    (blockLines coordinates).toOption = (blockLines coordinates').toOption := by
  rw [blockLines, blockLines]
  simp only [toOption_bind, toOption_orRefuse, firstItem?_eq]
  rw [← Option.bind_assoc, ← Option.bind_assoc]
  exact congrArg (Option.bind · _) h

private theorem pointLines_toOption (h : (position coordinates).toOption = (position coordinates').toOption) :
    (pointLines coordinates).toOption = (pointLines coordinates').toOption := by
  rw [pointLines, pointLines, toOption_bind, toOption_bind, h]

private theorem circleLines_toOption (options : Options) (h : center? coordinates = center? coordinates') :
    (circleLines options coordinates).toOption = (circleLines options coordinates').toOption := by
  rw [circleLines, circleLines]
  simp only [toOption_bind, toOption_orRefuse, firstItem?_bind]
  rw [← Option.bind_assoc, ← Option.bind_assoc]
  exact congrArg (Option.bind · _) h

private theorem shapeLines_toOption (options : Options) (kind : ElementKind) {geometry : Geometry}
    {outline outline' : Outline} (h : outline.Draws geometry) (h' : outline'.Draws geometry) :
    (shapeLines options kind outline).toOption = (shapeLines options kind outline').toOption := by
  have hc := h.reads
  have hc' := h'.reads
  rw [shapeLines, shapeLines, h.type, h'.type]
  cases geometry with
  | point place =>
    split_ifs
    · exact circleLines_toOption options ((center?_of_ofJson? hc).trans (center?_of_ofJson? hc').symm)
    · refine pointLines_toOption ?_
      rw [(position_of_ofJson? hc).1, (position_of_ofJson? hc').1]
  | lineString places =>
    split_ifs
    · exact circleLines_toOption options ((center?_of_listOfJson? hc).trans (center?_of_listOfJson? hc').symm)
    · refine streetLines_toOption options ?_
      rw [(positions_of_listOfJson? hc).1, (positions_of_listOfJson? hc').1]
  | polygon rings =>
    obtain ⟨hr, hp⟩ := ring?_of_listOfJson? hc
    obtain ⟨hr', hp'⟩ := ring?_of_listOfJson? hc'
    split_ifs
    · exact circleLines_toOption options (hp.trans hp'.symm)
    · exact blockLines_toOption (hr.trans hr'.symm)

private theorem stanza_toOption (options : Options) (properties : Properties) {geometry : Geometry}
    {outline outline' : Outline} (h : outline.Draws geometry) (h' : outline'.Draws geometry) :
    (stanza options properties outline).toOption = (stanza options properties outline').toOption := by
  rw [stanza, stanza]
  simp only [toOption_bind, shapeLines_toOption options properties.kind h h']

/-- The same result, or faults of one feature, for any reasons. -/
inductive SameOutcome {α : Type} : Except Fault α → Except Fault α → Prop where
  | ok (a : α) : SameOutcome (.ok a) (.ok a)
  | shape (index : Nat) (reason reason' : Reason) :
    SameOutcome (.error (.shape index reason)) (.error (.shape index reason'))

namespace SameOutcome

variable {α β : Type} {first second third : Except Fault α}

private theorem symm (h : SameOutcome first second) : SameOutcome second first := by
  cases h with
  | ok a => exact .ok a
  | shape index reason reason' => exact .shape index reason' reason

private theorem trans (h : SameOutcome first second) (h' : SameOutcome second third) : SameOutcome first third := by
  cases h with
  | ok => exact h'
  | shape index reason =>
    cases h' with
    | shape _ _ reason' => exact .shape index reason reason'

private theorem map (h : SameOutcome first second) (f : α → β) :
    SameOutcome (first >>= fun a ↦ pure (f a)) (second >>= fun a ↦ pure (f a)) := by
  cases h with
  | ok a => exact .ok (f a)
  | shape index reason reason' => exact .shape index reason reason'

end SameOutcome

variable {features features' : List (Properties × Outline)}

private theorem stanzas_same (h : List.Forall₂ (fun feature feature' ↦ (stanza options feature.1 feature.2).toOption =
    (stanza options feature'.1 feature'.2).toOption) features features') (index : Nat) :
    SameOutcome (stanzas options index features) (stanzas options index features') := by
  induction h generalizing index with
  | nil => exact .ok []
  | @cons feature feature' _ _ hs _ ih =>
    rw [stanzas, stanzas]
    cases hf : stanza options feature.1 feature.2 with
    | error reason =>
      cases hf' : stanza options feature'.1 feature'.2 with
      | error reason' => exact .shape index reason reason'
      | ok text =>
        rw [hf, hf'] at hs
        cases hs
    | ok text =>
      cases hf' : stanza options feature'.1 feature'.2 with
      | error reason =>
        rw [hf, hf'] at hs
        cases hs
      | ok text' =>
        rw [hf, hf'] at hs
        cases hs
        exact (ih (index + 1)).map (text :: ·)

private theorem finite_of_draws {geometry : Geometry} {outline : Outline} (h : outline.Draws geometry)
    (hf : outline.coordinates.Finite) : geometry.Finite := by
  have hlist {value : Json} {places : List LatLon} (hf : value.Finite)
      (h : listOfJson? LatLon.ofJson? value = some places) : ∀ place ∈ places, place.Finite :=
    finite_positions hf (positions_of_listOfJson? h).1
  have hc := h.reads
  cases geometry with
  | point place => exact List.forall_mem_singleton.mpr (finite_position hf (position_of_ofJson? hc).1)
  | lineString places => exact hlist hf hc
  | polygon rings =>
    obtain ⟨items, hi, hr⟩ := listOfJson?_eq_some hc
    rw [hi] at hf
    replace hf := hf.items
    clear h hc hi
    induction hr with
    | nil => exact List.forall_mem_nil _
    | cons hr _ ih =>
      obtain ⟨hi, hf⟩ := List.forall_mem_cons.mp hf
      exact List.forall_mem_append.mpr ⟨hlist hi hr, ih hf⟩

private theorem draws_coordinates (geometry : Geometry) :
    Outline.Draws ⟨geometry.typeName, geometry.coordinates⟩ geometry :=
  ⟨rfl, geometry.ofFields?_coordinates⟩

section

variable [Json.Numerals] {text : String} {document : Document}

private theorem finite_of_read (h : Document.read text = .ok document) : document.Finite := by
  obtain ⟨found, _, ha⟩ := readOutlines_of_read h
  refine forall_mem_of_forall₂ ha fun feature found ⟨⟨hp, _⟩, hd, hf⟩ ↦ ?_
  refine List.forall_mem_append.mpr ⟨hp, fun number hn ↦ ?_⟩
  obtain ⟨place, hm, hn⟩ := List.mem_flatMap.mp hn
  obtain ⟨hlat, hlon⟩ := finite_of_draws hd hf place hm
  simp only [LatLon.numbers, List.mem_cons, List.not_mem_nil, or_false] at hn
  rcases hn with rfl | rfl
  · exact hlat
  · exact hlon

private theorem same_of_read (h : Document.read text = .ok document) (options : Options) :
    SameOutcome (ofText options text) (ofOutlines options (document.features.map fun feature ↦
      (feature.properties, feature.geometry.outline))) := by
  obtain ⟨found, hr, ha⟩ := readOutlines_of_read h
  -- In the text, too, the outlines draw the geometries of the document, so their stanzas are the same.
  have hs : SameOutcome (stanzas options 0 found) (stanzas options 0 (document.features.map fun feature ↦
      (feature.properties, feature.geometry.outline))) := by
    refine stanzas_same (List.forall₂_map_right_iff.mpr (ha.flip.imp ?_)) 0
    rintro found feature ⟨⟨_, hp⟩, hd, hf⟩
    rw [← hp, Geometry.outline, Geometry.reread_eq (finite_of_draws hd hf)]
    exact stanza_toOption options feature.properties hd (draws_coordinates feature.geometry)
  rw [ofText, hr]
  exact hs.map (assemble options)

/--
The spelling of a document does not matter. A text in which the strict reader finds a document is read by the loose
reader, too, and all texts of one document lead to the same script; or for all of them the same feature has no stanza.
So it is whatever the order of their fields is, which others stand between them, whether records are objects or arrays,
and how numbers are written. If the numbers of the document are read back where they are written, its own text is among
these texts.
-/
theorem ofText_same (h : Document.read text = .ok document) (options : Options) :
    (Json.Faithful document.numbers → SameOutcome (ofText options text) (ofText options document.text)) ∧
      ∀ text', Document.read text' = .ok document → SameOutcome (ofText options text) (ofText options text') := by
  refine ⟨fun hn ↦ ?_, fun _ h' ↦ (same_of_read h options).trans (same_of_read h' options).symm⟩
  have hr : readOutlines document.text = .ok (document.features.map fun feature ↦
      (feature.properties, feature.geometry.outline)) := by
    rw [readOutlines_eq_ok, Document.map_returned hn]
    exact ⟨(Json.faithful_iff.mp hn).1, mapM_reread (finite_of_read h) _⟩
  have hs := same_of_read h options
  rwa [show ofText options document.text = _ by rw [ofText, hr]]

end

/-- Records as arrays and with more fields in another order, and numbers without points. -/
def variedText : String :=
  "\x7b\"x\": [\x7b\"y\": null\x7d], \"features\": [[[\"Statue\", \"a\"], "
    ++ "\x7b\"x\": \"\\ud83d\\ude00\", \"coordinates\": [1, -2e0], \"type\": \"Point\"\x7d], "
    ++ "\x7b\"geometry\": [\"Polygon\", [[[1.50, 2]]]], \"properties\": [\"Lake\", \"b\"]\x7d]\x7d"

/-- It leads to the same script as the text of the document that it is, whose numbers are read back by scaling. -/
theorem ofText_same_variedText :
    ∃ document, Document.read variedText = .ok document ∧ document.text ≠ variedText ∧
      Json.Faithful document.numbers ∧ SameOutcome (ofText {} variedText) (ofText {} document.text) ∧
      ∃ script, ofText {} variedText = .ok script := by
  have hread : (Document.read variedText).isOk = true ∧ (Document.read variedText).toOption.map Document.text ≠
      some variedText ∧ (∀ document ∈ (Document.read variedText).toOption, Json.Faithful document.numbers) ∧
      (ofText {} variedText).isOk = true := by
    decide +kernel
  obtain ⟨hok, hne, hn, hs⟩ := hread
  cases h : Document.read variedText with
  | error fault =>
    rw [h] at hok
    cases hok
  | ok document =>
    rw [h] at hne hn
    replace hn := hn document rfl
    cases hscript : ofText {} variedText with
    | error fault =>
      rw [hscript] at hs
      cases hs
    | ok script =>
      exact ⟨document, rfl, fun he ↦ hne (congrArg some he), hn, hscript ▸ (ofText_same h {}).1 hn, script, rfl⟩

end Script

end Cityscape
