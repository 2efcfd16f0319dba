import Cityscape.Proofs.SinglePass

/-!
# Drawings and documents

An element is drawn and is written into a document at the same moment, and all that is drawn of it can be seen
in its feature. So the strokes of a compilation are those of its features, one after the other, also if the
script is refused: there are features and strokes of the elements that were read to their closing braces, and
of nothing else.
-/

namespace Cityscape

/-- Where a position of a document is drawn. -/
def LatLon.pixel (project : Projection) (position : LatLon) : Pixel :=
  project position.longitude position.latitude

/--
What is drawn of a feature: a street from its fourth position to its fifth, the corners of an institution, the
outline of a square without its last position, the place of a statue and the whole outline of a lake.
-/
def Feature.strokes (project : Projection) (feature : Feature) : List Stroke :=
  match feature.properties.kind, feature.geometry with
  | .street, .lineString (_ :: _ :: _ :: fourth :: fifth :: _) =>
    [.line (fourth.pixel project) (fifth.pixel project)]
  | .institution, .polygon (ring :: _) =>
    (ring.take 4).map fun corner ↦ .circle (corner.pixel project) 10.0
  | .square, .polygon (ring :: _) => [.polygon ((ring.take 4).map (·.pixel project))]
  | .statue, .point position => [.circle (position.pixel project) 10.0]
  | .lake, .polygon (ring :: _) => [.polygon (ring.map (·.pixel project))]
  | _, _ => []

private theorem Element.strokes_feature (project : Projection) (element : Element) :
    element.feature.strokes project = element.strokes project := by
  cases element with
  | street | institution | square | statue => rfl
  | lake name center radius samples =>
    change [Stroke.polygon (((shore samples).map Coordinate.latLon).map (·.pixel project))] = _
    rw [List.map_map]
    rfl

/-- Where compiling a scanned script begins, unless a fault comes before the first token. -/
def Scan.begins (scan : Scan) (journal : Journal) : Except Fault Session :=
  match scan.tokens, scan.ending with
  | first :: ahead, ending => .ok { current := first, ahead, ending, journal }
  | [], .finish last => .ok { current := last, ahead := [], ending := .finish last, journal }
  | [], .fault fault => .error (.ofLexical fault)

/-- A fault before the first token is all there is. -/
theorem Scan.compile_of_begins_error {scan : Scan} {journal : Journal} {fault : Fault}
    (h : scan.begins journal = .error fault) : scan.compile journal = ⟨.error fault, [], [], journal⟩ := by
  obtain ⟨_ | ⟨first, ahead⟩, _ | _⟩ := scan <;> cases h
  rfl

/-- Compiling runs from where it begins. -/
theorem Scan.compile_of_begins {scan : Scan} {journal : Journal} {first : Session}
    (h : scan.begins journal = .ok first) :
    scan.compile journal = match Compile.city.run first with
      | .ok city session => session.compilation (.ok city)
      | .error fault session => session.compilation (.error fault) := by
  obtain ⟨_ | ⟨first, ahead⟩, _ | _⟩ := scan <;> cases h <;> rfl

/-- Nothing has been done where compiling begins, and all tokens are ahead. -/
theorem Scan.at_of_begins {scan : Scan} {journal : Journal} {first : Session}
    (h : scan.begins journal = .ok first) :
    first.At scan.ending scan.tokens ∧ first.elements = [] ∧ first.scopes = .empty := by
  obtain ⟨_ | ⟨token, ahead⟩, ending⟩ := scan
  · cases ending with
    | finish last =>
      cases h
      exact ⟨⟨rfl, rfl, rfl⟩, rfl, rfl⟩
    | fault fault => cases h
  · cases h
    exact ⟨⟨rfl, rfl, rfl⟩, rfl, rfl⟩

/-- A scanned script is refused with this fault, after these elements have been read to their closing braces. -/
inductive Scan.Refuses (scan : Scan) (journal : Journal) (fault : Fault) : List Element → Prop where
  /-- The fault comes before the first token. -/
  | first (h : scan.begins journal = .error fault) : Refuses scan journal fault []
  /-- The fault comes later. -/
  | later {first : Session} {elements : List Element} (h : scan.begins journal = .ok first)
    (hi : Interrupted first fault elements) : Refuses scan journal fault elements

private theorem Scan.Refuses.unique {scan : Scan} {journal : Journal} {fault fault' : Fault}
    {elements elements' : List Element} (h : scan.Refuses journal fault elements)
    (h' : scan.Refuses journal fault' elements') : elements = elements' := by
  cases h with
  | first hb =>
    cases h' with
    | first => rfl
    | later hb' => cases hb.symm.trans hb'
  | later hb hi =>
    cases h' with
    | first hb' => cases hb.symm.trans hb'
    | later hb' hi' =>
      cases hb.symm.trans hb'
      exact hi.unique hi'

private theorem refuses_of_compile {source : Source} {capacity : Nat} {fault : Fault}
    (h : (compile capacity source).result = .error fault) :
    (scan source).Refuses (.empty capacity) fault (compile capacity source).elements := by
  have hp : (scan source).ending.Proper := fun _ he ↦ scanFrom_ending he
  rw [compile] at h ⊢
  cases hb : (scan source).begins (.empty capacity) with
  | error fault' =>
    rw [Scan.compile_of_begins_error hb] at h ⊢
    cases h
    exact .first hb
  | ok first =>
    obtain ⟨hat, he, _⟩ := Scan.at_of_begins hb
    rw [Scan.compile_of_begins hb] at h ⊢
    split at h
    · cases h
    · next hr =>
      cases h
      have hc := city_ends hp hat
      rw [hr] at hc
      exact .later hb (Breaks.interrupted hc he)

/--
The strokes of a compilation are those of its features, in order, whatever the projection is. Of a script
that is accepted these are the features of the document. Of one that is refused they are the features of those
elements, and no others, after which it is refused: the ones that were read to their closing braces.
-/
theorem compile_strokes (source : Source) (capacity : Nat) :
    (∀ project : Projection, (compile capacity source).elements.flatMap (·.strokes project) =
      (compile capacity source).features.flatMap (·.strokes project)) ∧
    (compile capacity source).features = (compile capacity source).elements.map Element.feature ∧
    (∀ city, (compile capacity source).result = .ok city →
      city.document.features = (compile capacity source).features) ∧
    ∀ fault, (compile capacity source).result = .error fault →
      ∀ elements, (scan source).Refuses (.empty capacity) fault elements ↔
        elements = (compile capacity source).elements := by
  have hf : (compile capacity source).features = (compile capacity source).elements.map Element.feature :=
    Scan.features_compile _ _
  refine ⟨fun project ↦ ?_, hf, fun city h ↦ ?_, fun fault h elements ↦ ⟨fun hr ↦ ?_, ?_⟩⟩
  · rw [hf, List.flatMap_map]
    simp only [Element.strokes_feature]
  · exact (Scan.compile_of_city h).2.symm
  · exact hr.unique (refuses_of_compile h)
  · rintro rfl
    exact refuses_of_compile h

/-- A script that is refused in its second element, where a variable has no value. -/
def cutScript : Source :=
  ("city \"A\"\x7bcoordinate p=(1,2)street \"S\"\x7bbend(p,p,5)line(p,p)\x7d"
    ++ "institution \"I\"\x7baddress=\"B\"events=3 block(p,p,p,q)\x7d\x7d").toList

/-- Only the first element of the script is drawn. -/
theorem compile_strokes_cutScript :
    ∃ fault, (compile 4 cutScript).result = .error fault ∧ (compile 4 cutScript).elements.length = 1 ∧
      (scan cutScript).Refuses (.empty 4) fault (compile 4 cutScript).elements := by
  have h : (!(compile 4 cutScript).result.isOk && (compile 4 cutScript).elements.length == 1) = true := by
    decide +kernel
  obtain ⟨hr, hl⟩ := Bool.and_eq_true_iff.mp h
  cases hc : (compile 4 cutScript).result with
  | ok city =>
    rw [hc] at hr
    cases hr
  | error fault =>
    exact ⟨fault, rfl, eq_of_beq hl, ((compile_strokes cutScript 4).2.2.2 fault hc _).mpr rfl⟩

end Cityscape
