import Cityscape.Proofs.Legibility

/-!
# Documents of accepted scripts

The document of an accepted script has the order of a city and the shapes of its elements: bends meet their
control point twice, corners and shores come back to where they began. Its texts, and all other texts that an
accepted script leaves, are made of the characters that may stand between quotes.
-/

namespace Cityscape

/-- The geometries that features of a kind have. -/
inductive ElementKind.Shapes : ElementKind → Geometry → Prop where
  | street (start control first second : LatLon) :
    Shapes .street (.lineString [start, control, control, first, second])
  | institution (first second third fourth : LatLon) :
    Shapes .institution (.polygon [[first, second, third, fourth, first]])
  | square (first second third fourth : LatLon) :
    Shapes .square (.polygon [[first, second, third, fourth, first]])
  | statue (position : LatLon) : Shapes .statue (.point position)
  | lake (first : LatLon) (middle : List LatLon) (h : middle.length = 9) :
    Shapes .lake (.polygon [first :: (middle ++ [first])])

/-- There are as many points around a centre as were asked for. -/
@[simp]
theorem Coordinate.length_around (center : Coordinate) (radius : Float) (count : Nat) :
    (center.around radius count).length = count := by
  simp only [around, List.length_map, List.length_range]

private theorem exists_shore {samples : List Coordinate} (h : shorePoints ≤ samples.length) :
    ∃ first middle, shore samples = first :: (middle ++ [first]) ∧ middle.length = 9 := by
  have hl : (samples.take shorePoints).length = 10 := by
    rw [List.length_take, Nat.min_eq_left h]
    rfl
  rw [shore]
  cases ht : samples.take shorePoints with
  | nil =>
    rw [ht] at hl
    cases hl
  | cons first middle =>
    rw [ht] at hl
    exact ⟨first, middle, rfl, Nat.succ.inj hl⟩

private theorem ElementKind.Shapes.of_lakeAround (name : String) (center : Coordinate) (radius : Float) :
    ElementKind.Shapes .lake (Element.lakeAround name center radius).geometry := by
  have hc : shorePoints ≤ (center.around radius lakeSamples).length := by
    rw [Coordinate.length_around]
    decide
  obtain ⟨first, middle, hs, hl⟩ := exists_shore hc
  rw [Element.lakeAround, Element.geometry, hs, List.map_cons, List.map_append]
  exact .lake _ _ (by rw [List.length_map, hl])

namespace Syntax

private theorem Content.shapes {group : Group} {content : Content group} {name : String} {scopes : Scopes}
    {element : Cityscape.Element} (h : content.evaluate name scopes = .ok element) :
    element.kind.Shapes element.geometry := by
  cases content with
  | street bend line =>
    obtain ⟨_, hb, h⟩ := exists_of_bind_eq_ok h
    obtain ⟨_, _, h⟩ := exists_of_bind_eq_ok h
    obtain ⟨_, _, hb⟩ := exists_of_bind_eq_ok hb
    obtain ⟨_, _, hb⟩ := exists_of_bind_eq_ok hb
    obtain ⟨_, _, hb⟩ := exists_of_bind_eq_ok hb
    cases hb
    cases h
    exact .street _ _ _ _
  | institution address events block =>
    obtain ⟨_, _, h⟩ := exists_of_bind_eq_ok h
    obtain ⟨_, _, h⟩ := exists_of_bind_eq_ok h
    obtain ⟨_, _, h⟩ := exists_of_bind_eq_ok h
    cases h
    exact .institution _ _ _ _
  | square block =>
    obtain ⟨_, _, h⟩ := exists_of_bind_eq_ok h
    cases h
    exact .square _ _ _ _
  | statue word place =>
    obtain ⟨_, _, h⟩ := exists_of_bind_eq_ok h
    cases h
    exact .statue _
  | lake circle =>
    obtain ⟨_, _, h⟩ := exists_of_bind_eq_ok h
    cases h
    exact .of_lakeAround _ _ _

private theorem shapes_of_builds {group : Group} {city : Scope} {trees : List (Element group)}
    {elements : List Cityscape.Element} (h : List.Forall₂ (Element.Builds city) trees elements) :
    ∀ element ∈ elements, element.kind.Shapes element.geometry := by
  induction h with
  | nil => exact List.forall_mem_nil _
  | cons hb _ ih =>
    obtain ⟨_, he⟩ := hb.described
    exact List.forall_mem_cons.mpr ⟨Content.shapes he, ih⟩

end Syntax

/-- A document in the order of a city, with shapes and texts as a city has them. -/
structure Document.WellFormed (document : Document) : Prop where
  street : ∃ feature ∈ document.features, feature.properties.kind = .street
  institution : ∃ feature ∈ document.features, feature.properties.kind = .institution
  ordered : document.features.Pairwise fun feature later ↦
    later.properties.kind.group = .mandatory → feature.properties.kind.group = .mandatory
  shapes : ∀ feature ∈ document.features, feature.properties.kind.Shapes feature.geometry
  sound : ∀ feature ∈ document.features, feature.properties.Sound

/--
The document of an accepted script is well-formed, and the name of its city and all strings that its variables
hold at the end are made of quotable characters.
-/
theorem compile_wellFormed {source : Source} {capacity : Nat} {city : City}
    (h : (compile capacity source).result = .ok city) :
    city.document.WellFormed ∧ Quotable city.name.toList ∧ city.scopes.Sound := by
  obtain ⟨tree, _, ht, he⟩ := evaluation_of_compile h
  have hs := meaningful_of_tokenize ht
  rw [he] at hs
  obtain ⟨_, _, hc⟩ := Syntax.City.composed he
  have hshapes : ∀ element ∈ city.elements, element.kind.Shapes element.geometry := by
    obtain ⟨_, _, _, hb, rfl⟩ := Syntax.City.builds_of_evaluation he
    exact List.forall_mem_append.mpr
      ⟨Syntax.shapes_of_builds hb.mandatory, Syntax.shapes_of_builds hb.optional⟩
  refine ⟨?_, hs.name, hs.scopes⟩
  rw [City.document, features_of_compile h]
  refine ⟨hc.has_feature hc.street, hc.has_feature hc.institution, hc.ordered, ?_, ?_⟩
  · exact List.forall_mem_map.mpr hshapes
  · exact List.forall_mem_map.mpr hs.elements

/-- A script with an element of every kind, and with strings that go from variable to variable. -/
def parkScript : Source :=
  ("city \"A. B\"\x7bcoordinate p=(1,2)string s=\"No. 5, C\"string t=s "
    ++ "institution \"I\"\x7bstring u=t address=u events=3 block(p,p,p,p)\x7d"
    ++ "street \"S\"\x7bbend(p,(3,4),5)line(p,p)\x7dlake \"L\"\x7bcircle(p,2)\x7d"
    ++ "statue \"D\"\x7bpoint p\x7dsquare \"Q\"\x7bblock(p,p,p,p)\x7d\x7d").toList

/-- The script is accepted, and its document is well-formed. -/
theorem compile_wellFormed_parkScript :
    ∃ city, (compile 4 parkScript).result = .ok city ∧ city.document.WellFormed := by
  have h : (compile 4 parkScript).result.isOk = true := by
    decide +kernel
  cases hc : (compile 4 parkScript).result with
  | error fault =>
    rw [hc] at h
    cases h
  | ok city => exact ⟨city, rfl, (compile_wellFormed hc).1⟩

end Cityscape
