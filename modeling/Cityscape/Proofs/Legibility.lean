import Cityscape.Proofs.Elements
import Cityscape.Proofs.RoundTrip

/-!
# Cities that have scripts

The document of a city can be turned into a script if and only if the numbers that the script would be made of are
finite, and all that are written can be read: a number that is not finite has no text in a document. Literals and sums
may leave the range of doubles, so there are scripts that compile to documents without scripts.
-/

namespace Cityscape

/-- The places of an element that a script about its feature is made of, or is refused for. -/
def Element.places : Element → List Coordinate
  | street _ bend line => bend.toList ++ line.toList
  | institution _ _ _ block | square _ block => closeRing block.toList
  | statue _ point => [point]
  | lake _ _ _ samples => samples.take 1

/-- An element whose feature has a stanza. -/
structure Element.Legible (element : Element) : Prop where
  numbers : ∀ number ∈ element.properties.numbers, number.isFinite = true
  places : ∀ place ∈ element.places, place.x.isFinite = true ∧ place.y.isFinite = true

/-- Whether an element is legible can be computed. -/
instance (element : Element) : Decidable element.Legible :=
  decidable_of_iff ((∀ number ∈ element.properties.numbers, number.isFinite = true) ∧
    ∀ place ∈ element.places, place.x.isFinite = true ∧ place.y.isFinite = true)
    ⟨fun ⟨hn, hp⟩ ↦ ⟨hn, hp⟩, fun ⟨hn, hp⟩ ↦ ⟨hn, hp⟩⟩

private theorem Element.Legible.restores {element : Element} (h : element.Legible) (hs : element.Sampled)
    {change : Float → Float} (hc : ∀ number, (change number).isFinite = number.isFinite) (options : Script.Options) :
    ∃ after, Restores options (element.feature.map change) after := by
  have hp : ∀ position ∈ (element.places.map Coordinate.latLon).map (LatLon.map change), position.Finite := by
    simp only [List.forall_mem_map]
    intro place hm
    obtain ⟨hx, hy⟩ := h.places place hm
    exact ⟨(hc place.y).trans hy, (hc place.x).trans hx⟩
  cases element with
  | street name bend line => exact ⟨_, .street name hp⟩
  | institution name address events block =>
    exact ⟨_, .institution name address ((hc events).trans (h.numbers events List.mem_cons_self)) hp⟩
  | square name block => exact ⟨_, .square name hp⟩
  | statue name point => exact ⟨_, .statue name (hp _ List.mem_cons_self)⟩
  | lake name center radius samples =>
    cases samples with
    | nil => exact absurd rfl hs
    | cons first samples => exact ⟨_, .lake name (hp _ List.mem_cons_self)⟩

private theorem finite_of_position {position found : LatLon} (h : Script.position position.reread = .ok found) :
    position.Finite := by
  by_cases hl : position.latitude.isFinite = true
  · by_cases hn : position.longitude.isFinite = true
    · exact ⟨hl, hn⟩
    · rw [LatLon.reread, Json.Reader.ofDouble, Json.Reader.ofDouble, if_pos hl, if_neg hn] at h
      cases h
  · rw [LatLon.reread, Json.Reader.ofDouble, if_neg hl] at h
    cases h

private theorem finite_of_positions {positions found : List LatLon}
    (h : Script.positions (.array (positions.map LatLon.reread)) = .ok found) :
    ∀ position ∈ positions, position.Finite := by
  change (positions.map LatLon.reread).mapM Script.position = .ok found at h
  induction positions generalizing found with
  | nil => exact fun _ h ↦ nomatch h
  | cons position positions ih =>
    rw [List.map_cons, List.mapM_cons] at h
    obtain ⟨_, hp, h⟩ := exists_of_bind_eq_ok h
    obtain ⟨_, hs, _⟩ := exists_of_bind_eq_ok h
    exact List.forall_mem_cons.mpr ⟨finite_of_position hp, ih hs⟩

private theorem finite_of_streetLines {options : Script.Options} {positions : List LatLon} {lines : List String}
    (h : Script.streetLines options (Geometry.reread (.lineString positions)) = .ok lines) :
    ∀ position ∈ positions, position.Finite := by
  obtain ⟨_, hp, _⟩ := exists_of_bind_eq_ok h
  exact finite_of_positions hp

private theorem finite_of_blockLines {ring : List LatLon} {rings : List (List LatLon)} {lines : List String}
    (h : Script.blockLines (Geometry.reread (.polygon (ring :: rings))) = .ok lines) :
    ∀ position ∈ ring, position.Finite := by
  obtain ⟨_, hr, h⟩ := exists_of_bind_eq_ok h
  obtain ⟨_, hp, _⟩ := exists_of_bind_eq_ok h
  cases hr
  exact finite_of_positions hp

private theorem finite_of_pointLines {position : LatLon} {lines : List String}
    (h : Script.pointLines (Geometry.reread (.point position)) = .ok lines) : position.Finite := by
  obtain ⟨_, hp, _⟩ := exists_of_bind_eq_ok h
  exact finite_of_position hp

private theorem finite_of_circleLines {options : Script.Options} {center : LatLon} {more : List LatLon}
    {rings : List (List LatLon)} {lines : List String}
    (h : Script.circleLines options (Geometry.reread (.polygon ((center :: more) :: rings))) = .ok lines) :
    center.Finite := by
  obtain ⟨_, hc, h⟩ := exists_of_bind_eq_ok h
  obtain ⟨_, hp, _⟩ := exists_of_bind_eq_ok h
  cases hc
  exact finite_of_position hp

private theorem Feature.reread_eq_ok {γ : Type} {shape : Geometry → γ} {feature : Feature} {found : Properties × γ}
    (h : feature.reread shape = .ok found) : found = (feature.properties, shape feature.geometry) ∧
      ∀ number ∈ feature.properties.numbers, number.isFinite = true := by
  obtain ⟨properties, geometry⟩ := feature
  cases properties with
  | institution name address events =>
    rw [reread, Properties.reread] at h
    split_ifs at h with hf
    · cases h
      exact ⟨rfl, List.forall_mem_singleton.mpr hf⟩
    · cases h
  | _ =>
    cases h
    exact ⟨rfl, List.forall_mem_nil _⟩

private theorem Element.legible_of_stanza {options : Script.Options} {element : Element} {change : Float → Float}
    (hc : ∀ number, (change number).isFinite = number.isFinite) {found : Properties × Outline} {text : String}
    (hr : (element.feature.map change).reread Geometry.outline = .ok found)
    (hs : Script.stanza options found.1 found.2 = .ok text) : element.Legible := by
  obtain ⟨rfl, hn⟩ := Feature.reread_eq_ok hr
  obtain ⟨_, _, hs⟩ := exists_of_bind_eq_ok hs
  obtain ⟨_, hs, _⟩ := exists_of_bind_eq_ok hs
  have hp : ∀ position ∈ (element.places.map Coordinate.latLon).map (LatLon.map change), position.Finite := by
    cases element with
    | street => exact finite_of_streetLines hs
    | institution | square => exact finite_of_blockLines hs
    | statue => exact List.forall_mem_singleton.mpr (finite_of_pointLines hs)
    | lake name center radius samples =>
      cases samples with
      | nil => exact fun _ h ↦ nomatch h
      | cons first samples => exact List.forall_mem_singleton.mpr (finite_of_circleLines hs)
  simp only [List.forall_mem_map] at hp
  refine ⟨?_, fun place hm ↦ ?_⟩
  · cases element with
    | institution name address events block =>
      exact List.forall_mem_singleton.mpr ((hc events).symm.trans (hn _ List.mem_cons_self))
    | _ => exact List.forall_mem_nil _
  · obtain ⟨hy, hx⟩ := hp place hm
    exact ⟨(hc place.x).symm.trans hx, (hc place.y).symm.trans hy⟩

private theorem stanza_of_stanzas {options : Script.Options} {features : List Feature}
    {found : List (Properties × Outline)} {index : Nat} {texts : List String}
    (hr : features.mapM (Feature.reread Geometry.outline) = .ok found)
    (hs : Script.stanzas options index found = .ok texts) :
    ∀ feature ∈ features, ∃ read text, feature.reread Geometry.outline = .ok read ∧
      Script.stanza options read.1 read.2 = .ok text := by
  induction features generalizing found index texts with
  | nil => exact fun _ h ↦ nomatch h
  | cons feature features ih =>
    rw [List.mapM_cons] at hr
    obtain ⟨first, hf, hr⟩ := exists_of_bind_eq_ok hr
    obtain ⟨others, ho, hr⟩ := exists_of_bind_eq_ok hr
    cases hr
    rw [Script.stanzas] at hs
    split at hs
    · cases hs
    · next text ht =>
      obtain ⟨_, hs, _⟩ := exists_of_bind_eq_ok hs
      exact List.forall_mem_cons.mpr ⟨⟨first, text, hf, ht⟩, ih ho hs⟩

private theorem City.legible_of_script [Json.Numerals] {options : Script.Options} {city : City} {script : String}
    (hf : city.features = city.elements.map Element.feature)
    (h : Script.ofText options city.document.text = .ok script) :
    (∀ element ∈ city.elements, element.Legible) ∧ Json.Readable city.document.numbers := by
  rw [Script.ofText] at h
  split at h
  · cases h
  · next found hr =>
    obtain ⟨hn, hr⟩ := readOutlines_eq_ok.mp hr
    obtain ⟨texts, hs, _⟩ := exists_of_bind_eq_ok h
    refine ⟨fun element he ↦ ?_, hn⟩
    have hm : element.feature ∈ city.document.features := by
      rw [City.document, hf]
      exact List.mem_map_of_mem he
    obtain ⟨_, _, hr, ht⟩ := stanza_of_stanzas hr hs (element.feature.map Json.returned) (List.mem_map_of_mem hm)
    exact Element.legible_of_stanza Json.isFinite_returned hr ht

private theorem composed_of_compile {source : Source} {capacity : Nat} {city : City}
    (h : (compile capacity source).result = .ok city) :
    (∃ mandatory optional, Composed city.elements mandatory optional) ∧
      ∀ element ∈ city.elements, element.properties.Sound := by
  obtain ⟨tree, _, ht, he⟩ := evaluation_of_compile h
  have hm := meaningful_of_tokenize ht
  rw [he] at hm
  exact ⟨Syntax.City.composed he, hm.elements⟩

section

variable {elements mandatory optional : List Element} (hc : Composed elements mandatory optional)

include hc

/-- A city with an element of a kind has a feature of this kind. -/
theorem Composed.has_feature {kind : ElementKind} (h : ∃ element ∈ mandatory, element.kind = kind) :
    ∃ feature ∈ elements.map Element.feature, feature.properties.kind = kind := by
  obtain ⟨element, he, hk⟩ := h
  refine ⟨element.feature, List.mem_map_of_mem ?_, hk⟩
  rw [hc.parts]
  exact List.mem_append_left optional he

/-- No optional feature stands before a mandatory one. -/
theorem Composed.ordered : (elements.map Element.feature).Pairwise fun feature later ↦
    later.properties.kind.group = .mandatory → feature.properties.kind.group = .mandatory := by
  refine List.pairwise_map.mpr ?_
  rw [hc.parts]
  refine List.pairwise_append.mpr ⟨?_, ?_, fun element he _ _ _ ↦ hc.mandatory_group element he⟩
  · exact List.pairwise_of_forall_mem_list fun element he _ _ _ ↦ hc.mandatory_group element he
  · refine List.pairwise_of_forall_mem_list fun _ _ later hl hm ↦ ?_
    exact absurd ((hc.optional_group later hl).symm.trans hm) Syntax.Group.noConfusion

end

private theorem Properties.kind_map (change : Float → Float) (properties : Properties) :
    (properties.map change).kind = properties.kind := by
  cases properties <;> rfl

private theorem has_feature_map {document : Document} {kind : ElementKind} (change : Float → Float)
    (h : ∃ feature ∈ document.features, feature.properties.kind = kind) :
    ∃ feature ∈ (document.map change).features, feature.properties.kind = kind := by
  obtain ⟨feature, hm, hk⟩ := h
  exact ⟨feature.map change, List.mem_map_of_mem hm, (Properties.kind_map change feature.properties).trans hk⟩

private theorem City.told {options : Script.Options} {city : City} {mandatory optional : List Element}
    (hfeatures : city.features = city.elements.map Element.feature)
    (hc : Composed city.elements mandatory optional)
    (hs : ∀ element ∈ city.elements, element.properties.Sound)
    (hl : ∀ element ∈ city.elements, element.Legible) {change : Float → Float}
    (hf : ∀ number, (change number).isFinite = number.isFinite) : (city.document.map change).Told options where
  told := by
    simp only [Document.map, City.document, hfeatures, List.forall_mem_map]
    intro element he
    obtain ⟨after, hr⟩ := (hl element he).restores (hc.sampled element he) hf options
    refine ⟨after, hr, ?_⟩
    have hs := hs element he
    cases element <;> exact hs
  ordered := by
    refine List.pairwise_map.mpr ?_
    rw [City.document, hfeatures]
    refine hc.ordered.imp ?_
    intro feature later h
    simpa only [Feature.map, Properties.kind_map] using h
  street := by
    rw [City.document, hfeatures]
    exact has_feature_map change (hc.has_feature hc.street)
  institution := by
    rw [City.document, hfeatures]
    exact has_feature_map change (hc.has_feature hc.institution)

/--
The document of a city that compiles has a script that compiles again if and only if all elements of the city are
legible and all numbers of the document are read in some way. It has no script at all otherwise: whenever there is a
script, it compiles.
-/
theorem compile_script_iff [Json.Numerals] {source : Source} {capacity : Nat} {city : City}
    (h : (compile capacity source).result = .ok city) {options : Script.Options} (ho : options.Sound)
    (capacity' : Nat) :
    ((∃ script city', Script.ofText options city.document.text = .ok script ∧
        (compile capacity' (Source.ofString script)).result = .ok city') ↔
      (∀ element ∈ city.elements, element.Legible) ∧ Json.Readable city.document.numbers) ∧
    ∀ script, Script.ofText options city.document.text = .ok script →
      ∃ city', (compile capacity' (Source.ofString script)).result = .ok city' := by
  obtain ⟨⟨mandatory, optional, hc⟩, hs⟩ := composed_of_compile h
  have hf : city.features = city.elements.map Element.feature := features_of_compile h
  have hcompiles (hl : (∀ element ∈ city.elements, element.Legible) ∧ Json.Readable city.document.numbers) :
      ∃ script city', Script.ofText options city.document.text = .ok script ∧
        (compile capacity' (Source.ofString script)).result = .ok city' := by
    have ht : (city.document.map Json.returned).Told options := City.told hf hc hs hl.1 Json.isFinite_returned
    obtain ⟨arrangement, ha⟩ := ht.exists_arrangement
    obtain ⟨script, city', hs, hr, _⟩ := arrangement.compiles (arrangement.readOutlines_eq ha hl.2) ho capacity'
    exact ⟨script, city', hs, hr⟩
  refine ⟨⟨fun ⟨script, _, hs, _⟩ ↦ City.legible_of_script hf hs, hcompiles⟩, fun script hs ↦ ?_⟩
  obtain ⟨script', city', hs', hr⟩ := hcompiles (City.legible_of_script hf hs)
  cases hs.symm.trans hs'
  exact ⟨city', hr⟩

/-- A script with a statue at a longitude beyond the range of doubles. -/
def distantScript : Source :=
  ("city \"A\"\x7bcoordinate p=(1,2)street \"S\"\x7bbend(p,p,5)line(p,p)\x7d"
    ++ "institution \"I\"\x7baddress=\"B\"events=3 block(p,p,p,p)\x7dstatue \"D\"\x7bpoint (").toList
    ++ List.replicate 310 '9' ++ ",2)\x7d\x7d".toList

/-- The script compiles, and its statue is not legible. -/
private theorem compile_distantScript :
    ∃ city, (compile 4 distantScript).result = .ok city ∧ ∃ element ∈ city.elements, ¬ element.Legible := by
  -- Only the statue is looked at: a cosine does not reduce, and with it no bend.
  have h : (match (compile 4 distantScript).result with
      | .ok city => city.elements.getLast?.any fun element ↦ !decide element.Legible
      | .error _ => false) = true := by
    decide +kernel
  split at h
  · next city hc =>
    obtain ⟨element, he, hl⟩ := (Option.any_eq_true _ _).mp h
    refine ⟨city, hc, element, List.mem_of_getLast? he, ?_⟩
    simpa using hl
  · cases h

/-- A city whose document has no script that compiles. -/
theorem compile_script_iff_distantScript :
    ∃ city, (compile 4 distantScript).result = .ok city ∧
      ¬ ∃ script city', Script.ofText {} city.document.text = .ok script ∧
        (compile 4 (Source.ofString script)).result = .ok city' := by
  obtain ⟨city, hc, element, he, hn⟩ := compile_distantScript
  refine ⟨city, hc, fun hs ↦ hn ?_⟩
  exact ((compile_script_iff hc Script.Options.sound_default 4).1.mp hs).1 element he

/-- A city whose document has no script at all. -/
theorem no_script_of_distantScript :
    ∃ city, (compile 4 distantScript).result = .ok city ∧
      ∀ script, Script.ofText {} city.document.text ≠ .ok script := by
  obtain ⟨city, hc, element, he, hn⟩ := compile_distantScript
  exact ⟨city, hc, fun script hs ↦ hn ((City.legible_of_script (features_of_compile hc) hs).1 element he)⟩

end Cityscape
