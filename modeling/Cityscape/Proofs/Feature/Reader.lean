import Cityscape.Proofs.RoundTrip

/-!
# Documents and their texts

The text of a document with finite numbers says all that there is to say about it. If the numbers in it are read back,
the strict reader finds the document in it again, and the loose reader finds its features with their geometries as they
were written.
-/

namespace Cityscape

open Json (Numerals Faithful admitting returned)
open Json.Reader

/-- The type of a geometry. -/
def Geometry.type : Geometry → GeometryType
  | point _ => .point
  | lineString _ => .lineString
  | polygon _ => .polygon

private theorem GeometryType.ofName?_typeName (geometry : Geometry) :
    ofName? geometry.typeName = some geometry.type := by
  cases geometry <;> rfl

/-- Whether all numbers of a geometry are finite. -/
def Geometry.Finite (geometry : Geometry) : Prop :=
  ∀ position ∈ geometry.positions, position.Finite

private theorem LatLon.reread_eq {position : LatLon} (h : position.Finite) : position.reread = position.toJson := by
  rw [reread, toJson, ofDouble_eq h.1, ofDouble_eq h.2]

/-- Finite coordinates are what their text says. -/
theorem Geometry.reread_eq {geometry : Geometry} (h : geometry.Finite) :
    geometry.reread = geometry.coordinates := by
  have hp {positions : List LatLon} (h : ∀ position ∈ positions, position.Finite) :
      positions.map LatLon.reread = positions.map LatLon.toJson :=
    List.map_congr_left fun position hm ↦ LatLon.reread_eq (h position hm)
  cases geometry with
  | point position => exact LatLon.reread_eq (h position List.mem_cons_self)
  | lineString positions => exact congrArg Json.array (hp h)
  | polygon rings =>
    refine congrArg Json.array (List.map_congr_left fun ring hr ↦ congrArg Json.array (hp ?_))
    exact fun position hm ↦ h position (List.mem_flatten.mpr ⟨ring, hr, hm⟩)

private theorem LatLon.ofJson?_toJson (position : LatLon) : LatLon.ofJson? position.toJson = some position := rfl

private theorem listOfJson?_map {α : Type} {item? : Json → Option α} {toJson : α → Json}
    (h : ∀ item, item? (toJson item) = some item) (items : List α) :
    listOfJson? item? (.array (items.map toJson)) = some items := by
  change (items.map toJson).mapM item? = some items
  induction items with
  | nil => rfl
  | cons item items ih =>
    rw [List.map_cons, List.mapM_cons, h, ih]
    rfl

/-- A geometry is found in its coordinates. -/
theorem Geometry.ofFields?_coordinates (geometry : Geometry) :
    Geometry.ofFields? geometry.type (.named [("coordinates", geometry.coordinates)]) = some geometry := by
  cases geometry with
  | point position => rfl
  | lineString positions =>
    change (do return lineString (← listOfJson? LatLon.ofJson? (coordinates (lineString positions)))) = _
    rw [coordinates, listOfJson?_map LatLon.ofJson?_toJson]
    rfl
  | polygon rings =>
    change (do return polygon (← listOfJson? (listOfJson? LatLon.ofJson?) (coordinates (polygon rings)))) = _
    rw [coordinates, listOfJson?_map (listOfJson?_map LatLon.ofJson?_toJson)]
    rfl

private theorem Geometry.Finite.map_returned [Numerals] {geometry : Geometry} (h : geometry.Finite) :
    (geometry.map returned).Finite := by
  rw [Finite, Geometry.positions_map, List.forall_mem_map]
  intro position hp
  obtain ⟨hlat, hlon⟩ := h position hp
  exact ⟨(Json.isFinite_returned _).trans hlat, (Json.isFinite_returned _).trans hlon⟩

private theorem readGeometry_takes [Numerals] (depth indent : Nat) (geometry : Geometry) (h : geometry.Finite) :
    Takes (readGeometry (depth + 4)) (geometry.toJson.pretty indent).toList
      (admitting geometry.numbers (.ok (geometry.map returned))) := by
  intro blanks rest hb hr
  have hc : ∀ field ∈ [("coordinates", geometry.coordinates)], field.1 ≠ "type" ∧
      Takes (value (depth + 3)) (field.2.pretty (indent + 1)).toList
        (admitting geometry.numbers (.ok (geometry.map returned).coordinates)) := by
    intro field hf
    obtain rfl := List.mem_singleton.mp hf
    have ht := geometry.coordinates_take depth (indent + 1)
    rw [Geometry.reread_eq h.map_returned] at ht
    exact ⟨by simp, ht⟩
  have ht := tagged_takes (depth + 3) indent (GeometryType.ofName?_typeName geometry) (fun _ ↦ geometry.numbers)
    (fun _ ↦ (geometry.map returned).coordinates) hc blanks rest hb hr
  rw [List.flatMap_singleton] at ht
  rw [Json.map_admitting]
  apply ht.bind_admitting
  have hf := (geometry.map returned).ofFields?_coordinates
  rw [show (geometry.map returned).type = geometry.type by cases geometry <;> rfl] at hf
  change Reads (require (Geometry.ofFields? geometry.type (.named [("coordinates",
    (geometry.map returned).coordinates)]))) _ _
  rw [hf]
  exact Reads.pure _ rest

/-- Whether all numbers of a document are finite. -/
def Document.Finite (document : Document) : Prop :=
  ∀ feature ∈ document.features, ∀ number ∈ feature.numbers, number.isFinite = true

private theorem Document.Finite.geometry {document : Document} (h : document.Finite) :
    ∀ feature ∈ document.features, feature.geometry.Finite :=
  fun feature hf ↦ finite_of_numbers fun number hn ↦ h feature hf number (List.mem_append_right _ hn)

private theorem Properties.reread_eq {properties : Properties}
    (h : ∀ number ∈ properties.numbers, number.isFinite = true) : properties.reread = .ok properties := by
  cases properties with
  | institution name address events => exact if_pos (h events List.mem_cons_self)
  | _ => rfl

private theorem Feature.reread_eq {γ : Type} {feature : Feature}
    (h : ∀ number ∈ feature.numbers, number.isFinite = true) (found : Geometry → γ) :
    feature.reread found = .ok (feature.properties, found feature.geometry) := by
  rw [reread, Properties.reread_eq fun number hn ↦ h number (List.mem_append_left _ hn)]
  rfl

/-- The features of a document with finite numbers are what its text says. -/
theorem mapM_reread {γ : Type} {features : List Feature}
    (h : ∀ feature ∈ features, ∀ number ∈ feature.numbers, number.isFinite = true) (found : Geometry → γ) :
    features.mapM (Feature.reread found) =
      .ok (features.map fun feature ↦ (feature.properties, found feature.geometry)) := by
  induction features with
  | nil => rfl
  | cons feature features ih =>
    obtain ⟨hf, hfs⟩ := List.forall_mem_cons.mp h
    rw [List.mapM_cons, Feature.reread_eq hf, ih hfs]
    rfl

/--
A document with finite numbers is read back from its text if its numbers are, whatever characters its names and
addresses have and however many positions its geometries have. The loose reader finds the same features in the same
text, in the same order: their properties, the names of the types of their geometries and the positions, nested as they
were.
-/
theorem Document.read_text [Numerals] {document : Document} (h : document.Finite) (hn : Faithful document.numbers) :
    Document.read document.text = .ok document ∧
      readOutlines document.text = .ok (document.features.map fun feature ↦
        (feature.properties, ⟨feature.geometry.typeName, feature.geometry.coordinates⟩)) := by
  obtain ⟨hr, _⟩ := Json.faithful_iff.mp hn
  have hd : document.features.map (Feature.map returned) = document.features :=
    congrArg Document.features (Document.map_returned hn)
  constructor
  · have hg (indent : Nat) (geometry : Geometry) (hf : geometry.Finite) :
        Takes (readGeometry 124) (geometry.toJson.pretty indent).toList
          (admitting geometry.numbers (.ok (id (geometry.map returned)))) :=
      readGeometry_takes 120 indent geometry hf
    have hr : readAll (readCollection readGeometry deepest) document.text =
        .ok (document.features.map fun feature ↦ (feature.properties, feature.geometry)) := by
      refine (readAll_eq (readCollection_takes hg 0 h.geometry)).trans ?_
      rw [mapM_readBack_eq_ok, hd]
      exact ⟨hr, mapM_reread h id⟩
    rw [Document.read, hr]
    change Except.ok (Document.mk ((document.features.map _).map _)) = _
    rw [List.map_map]
    exact congrArg (fun features ↦ Except.ok (Document.mk features)) (List.map_id document.features)
  · rw [readOutlines_eq_ok, Document.map_returned hn, mapM_reread h]
    refine ⟨hr, congrArg Except.ok (List.map_congr_left fun feature hf ↦ ?_)⟩
    rw [Geometry.outline, Geometry.reread_eq (h.geometry feature hf)]

/-- Names with quotes, controls and long characters; geometries without positions; numbers of all sizes. -/
def strangeDocument : Document where
  features := [
    ⟨.lake "\"\\\n\x01/é😀", .polygon [[], [⟨-0.0, 5e-324⟩, ⟨1e16, 0.1⟩]]⟩,
    ⟨.institution "" "\t\x7f\u2028" 1.7976931348623157e308, .lineString []⟩,
    ⟨.statue "S", .point ⟨-1.5e-7, 3⟩⟩, ⟨.street "T", .polygon []⟩]

/-- Its numbers are read back by scaling, and the document is found in its text by both readers. -/
theorem read_text_strangeDocument :
    strangeDocument.Finite ∧ Faithful strangeDocument.numbers ∧
      Document.read strangeDocument.text = .ok strangeDocument ∧
      ∃ features, readOutlines strangeDocument.text = .ok features ∧ features.length = 4 := by
  have hf : strangeDocument.Finite := by
    unfold Document.Finite
    decide +kernel
  have hn : Faithful strangeDocument.numbers := by
    decide +kernel
  obtain ⟨hr, ho⟩ := Document.read_text hf hn
  exact ⟨hf, hn, hr, _, ho, rfl⟩

/-- Scaling does not read every number back: this one is written with all its digits, and another one is read. -/
example : ¬ Faithful [9.292213977708839] := by
  decide +kernel

end Cityscape
