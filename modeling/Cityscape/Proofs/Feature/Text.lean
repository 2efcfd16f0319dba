import Cityscape.Feature.Reader
import Cityscape.Feature.Text
import Cityscape.Proofs.Json.Numerals
import Cityscape.Proofs.Outcome

/-!
# Documents read back

The text of a document is read as the features that were written, in their order, with two exceptions. A number that is
not finite has no text of its own and reads as no number at all, and a finite one is what the reader makes of its text,
or the whole text is refused for it.
-/

namespace Cityscape

open Json (Numerals Readable Faithful admitting returned)
open Json.Reader

variable {α γ σ : Type}

/-! ### Numbers of documents -/

/-- The numbers of a position. -/
def LatLon.numbers (position : LatLon) : List Float :=
  [position.latitude, position.longitude]

/-- The positions of a geometry. -/
def Geometry.positions : Geometry → List LatLon
  | point position => [position]
  | lineString positions => positions
  | polygon rings => rings.flatten

/-- The numbers of a geometry. -/
def Geometry.numbers (geometry : Geometry) : List Float :=
  geometry.positions.flatMap LatLon.numbers

/-- The numbers among properties. -/
def Properties.numbers : Properties → List Float
  | institution _ _ events => [events]
  | _ => []

/-- All numbers of a feature. -/
def Feature.numbers (feature : Feature) : List Float :=
  feature.properties.numbers ++ feature.geometry.numbers

/-- All numbers of a document. -/
def Document.numbers (document : Document) : List Float :=
  document.features.flatMap Feature.numbers

section

variable (change : Float → Float)

/-- A position with other numbers. -/
def LatLon.map (position : LatLon) : LatLon :=
  ⟨change position.latitude, change position.longitude⟩

/-- A geometry with other numbers. -/
def Geometry.map : Geometry → Geometry
  | point position => .point (position.map change)
  | lineString positions => .lineString (positions.map (LatLon.map change))
  | polygon rings => .polygon (rings.map (List.map (LatLon.map change)))

/-- Properties with other numbers. -/
def Properties.map : Properties → Properties
  | institution name address events => .institution name address (change events)
  | properties => properties

/-- A feature with other numbers. -/
def Feature.map (feature : Feature) : Feature :=
  ⟨feature.properties.map change, feature.geometry.map change⟩

/-- A document with other numbers. -/
def Document.map (document : Document) : Document :=
  ⟨document.features.map (Feature.map change)⟩

/-- The positions of a geometry with other numbers. -/
theorem Geometry.positions_map (geometry : Geometry) :
    (geometry.map change).positions = geometry.positions.map (LatLon.map change) := by
  cases geometry with
  | polygon rings => exact List.map_flatten.symm
  | _ => rfl

variable {change}

private theorem map_eq_of_forall {f : α → α} {items : List α} (h : ∀ item ∈ items, f item = item) :
    items.map f = items :=
  (List.map_congr_left h).trans (List.map_id items)

private theorem positions_map_eq {positions : List LatLon}
    (h : ∀ number ∈ positions.flatMap LatLon.numbers, change number = number) :
    positions.map (LatLon.map change) = positions := by
  refine map_eq_of_forall fun position hp ↦ ?_
  have hn := List.forall_mem_flatMap.mp h position hp
  rw [LatLon.map, hn position.latitude List.mem_cons_self,
    hn position.longitude (List.mem_cons_of_mem _ List.mem_cons_self)]

private theorem Geometry.map_eq {geometry : Geometry} (h : ∀ number ∈ geometry.numbers, change number = number) :
    geometry.map change = geometry := by
  cases geometry with
  | point position =>
    have hp : [position].map (LatLon.map change) = [position] := positions_map_eq h
    exact congrArg point (List.singleton_inj.mp hp)
  | lineString positions => exact congrArg lineString (positions_map_eq h)
  | polygon rings =>
    refine congrArg polygon (map_eq_of_forall fun ring hr ↦ positions_map_eq ?_)
    exact fun number hn ↦ h number (List.mem_flatMap.mpr (by
      obtain ⟨position, hp, hn⟩ := List.mem_flatMap.mp hn
      exact ⟨position, List.mem_flatten.mpr ⟨ring, hr, hp⟩, hn⟩))

private theorem Properties.map_eq {properties : Properties}
    (h : ∀ number ∈ properties.numbers, change number = number) :
    properties.map change = properties := by
  cases properties with
  | institution name address events => rw [map, h events List.mem_cons_self]
  | _ => rfl

private theorem Document.map_eq {document : Document} (h : ∀ number ∈ document.numbers, change number = number) :
    document.map change = document := by
  refine congrArg Document.mk (map_eq_of_forall fun feature hf ↦ ?_)
  obtain ⟨hp, hg⟩ := List.forall_mem_append.mp (List.forall_mem_flatMap.mp h feature hf)
  rw [Feature.map, Properties.map_eq hp, Geometry.map_eq hg]

end

/-! ### Arrays and objects -/

namespace Json

private theorem prettyItems_eq (indent : Nat) (items : List Json) :
    prettyItems indent items = items.map (pretty indent) := by
  induction items with
  | nil => rfl
  | cons item items ih => rw [prettyItems, ih, List.map_cons]

/-- The members of an object with the texts of their values. -/
def memberTexts (indent : Nat) (members : List (String × Json)) : List (String × List Char) :=
  members.map fun (name, value) ↦ (name, (value.pretty indent).toList)

private theorem prettyMembers_eq (indent : Nat) (members : List (String × Json)) :
    (prettyMembers indent members).map String.toList =
      (memberTexts indent members).map fun (name, text) ↦ memberText name text := by
  induction members with
  | nil => rfl
  | cons member members ih =>
    rw [prettyMembers, List.map_cons, ih, memberTexts, memberTexts, List.map_cons, List.map_cons]
    simp [memberText]

private theorem begins_object (indent : Nat) (members : List (String × Json)) :
    Begins ((object members).pretty indent).toList := by
  rw [pretty, toList_bracketed]
  exact ⟨_, _, rfl, rfl, by decide⟩

private theorem begins_array (indent : Nat) (items : List Json) : Begins ((array items).pretty indent).toList := by
  rw [pretty, toList_bracketed]
  exact ⟨_, _, rfl, rfl, by decide⟩

private theorem begins_double (indent : Nat) (value : Float) : Begins ((double value).pretty indent).toList := by
  rw [pretty, Decimal.Style.write]
  split_ifs with h1 h2 h3
  · exact ⟨_, _, rfl, rfl, by decide⟩
  · exact ⟨_, _, rfl, rfl, by decide⟩
  · exact ⟨_, _, rfl, rfl, by decide⟩
  · rw [String.toList_ofList]
    exact ⟨'-', _, rfl, rfl, by decide⟩
  · obtain ⟨c, text, he, hc⟩ := head_magnitude (m := Decimal.magnitude value) (by omega)
    rw [String.toList_ofList, List.nil_append, he]
    refine ⟨c, text, rfl, isBlank_of_isDigit hc, ?_⟩
    rintro rfl
    cases hc

namespace Reader

variable [Numerals]

private theorem value_array_takes (depth indent : Nat) {text found : α → Json} {numbers : α → List Float} (xs : List α)
    (h : ∀ x, Begins ((text x).pretty (indent + 1)).toList ∧
      Takes (value depth) ((text x).pretty (indent + 1)).toList (admitting (numbers x) (.ok (found x)))) :
    Begins ((Json.array (xs.map text)).pretty indent).toList ∧
      Takes (value (depth + 1)) ((Json.array (xs.map text)).pretty indent).toList
        (admitting (xs.flatMap numbers) (.ok (.array (xs.map found)))) := by
  refine ⟨begins_array indent _, ?_⟩
  intro blanks rest hb _
  have ha := arrayTail_reads indent xs (fun x _ ↦ h x) rest
  rw [mapM_admitting] at ha
  rw [pretty, toList_bracketed, prettyItems_eq, List.map_map, List.map_map]
  simp only [List.append_assoc]
  apply (Reads.peek hb (c := '[') rfl _).bind
  apply (Reads.eat '[' _).bind
  rw [map_admitting]
  exact ha.bind_admitting (Reads.pure _ rest)

private theorem value_double_takes (depth indent : Nat) (number : Float) :
    Takes (value depth) ((double number).pretty indent).toList
      (admitting [number] (.ok (ofDouble (returned number)))) := by
  rw [pretty]
  cases depth <;> exact double_takes _ _ number

private theorem value_string_takes (depth indent : Nat) (text : String) :
    Takes (value depth) ((Json.string text).pretty indent).toList (.ok (.string text)) := by
  rw [pretty]
  cases depth <;> exact string_takes_value _ _ text

private theorem record_takes (depth indent : Nat) {onObject onArray : Nat → Reader α} {member : σ → String → Reader σ}
    {state : σ} {finish : σ → Reader α} {members : List (String × Json)} {met : Except Fault σ}
    {result : Except Fault α} (ho : onObject depth = Reader.members member state >>= finish)
    (h : Gathers member state (memberTexts (indent + 1) members) met)
    (hf : ∀ rest, match met with
      | .ok met => Reads (finish met) rest (result.map (·, rest))
      | .error fault => result = .error fault) :
    Takes (record (depth + 1) onObject onArray) ((object members).pretty indent).toList result := by
  intro blanks rest hb _
  have hm := members_reads indent h rest
  rw [pretty, toList_bracketed, prettyMembers_eq]
  simp only [List.append_assoc]
  apply (Reads.peek hb (c := '\x7b') rfl _).bind
  apply (Reads.eat '\x7b' _).bind
  have hf := hf ('\x7d' :: rest)
  rw [ho]
  cases met with
  | error fault =>
    subst hf
    exact hm.bind_error.bind_error
  | ok met =>
    have hr := hm.bind hf
    cases result with
    | error fault => exact hr.bind_error
    | ok a =>
      apply hr.bind
      exact ((Reads.peek blanks_nil (c := '\x7d') rfl rest).bind (Reads.eat '\x7d' rest)).bind
        (Reads.pure a rest)

private theorem record_takes_of_admitting (depth indent : Nat) {onObject onArray : Nat → Reader α}
    {member : σ → String → Reader σ} {state met : σ} {finish : σ → Reader α} {members : List (String × Json)}
    {numbers : List Float} {result : Except Fault α}
    (ho : onObject depth = Reader.members member state >>= finish)
    (h : Gathers member state (memberTexts (indent + 1) members) (admitting numbers (.ok met)))
    (hf : ∀ rest, Reads (finish met) rest (result.map (·, rest))) :
    Takes (record (depth + 1) onObject onArray) ((object members).pretty indent).toList
      (admitting numbers result) := by
  refine record_takes depth indent ho h fun rest ↦ ?_
  unfold admitting
  split_ifs
  · exact hf rest
  · rfl

/-- A step through the members of a record with a tag. -/
def taggedMember (depth : Nat) (name : String) (meaning : String → Option α) :
    Option α × List (String × Json) → String → Reader (Option α × List (String × Json)) :=
  fun (met, others) key ↦
    if key = name then return (← once met (tag meaning), others)
    else return (met, others ++ [(key, ← memberValue (value depth))])

private theorem tag_takes {meaning : String → Option α} {text : String} {a : α} (h : meaning text = some a)
    (indent : Nat) : Takes (tag meaning) ((Json.string text).pretty indent).toList (.ok a) := by
  intro blanks rest hb hr
  rw [pretty]
  apply (string_takes text blanks rest hb hr).bind
  rw [h]
  exact Reads.pure a rest

private theorem gathers_fields {depth indent : Nat} {name : String} {meaning : String → Option α} {read : Json → Json}
    {numbers : Json → List Float} {fields : List (String × Json)}
    (h : ∀ field ∈ fields, field.1 ≠ name ∧
      Takes (value depth) (field.2.pretty indent).toList (admitting (numbers field.2) (.ok (read field.2))))
    (met : Option α) (others : List (String × Json)) :
    Gathers (taggedMember depth name meaning) (met, others) (memberTexts indent fields)
      (admitting (fields.flatMap fun field ↦ numbers field.2)
        (.ok (met, others ++ fields.map fun (key, value) ↦ (key, read value)))) := by
  induction fields generalizing others with
  | nil =>
    rw [List.flatMap_nil, admitting_nil, List.map_nil, List.append_nil]
    exact .done _
  | cons field fields ih =>
    obtain ⟨key, found⟩ := field
    obtain ⟨hk, hv⟩ := h (key, found) List.mem_cons_self
    have hrest := ih (fun field hf ↦ h field (List.mem_cons_of_mem _ hf)) (others ++ [(key, read found)])
    have hm : Takes (taggedMember depth name meaning (met, others) key) (':' :: ' ' :: (found.pretty indent).toList)
        (admitting (numbers found) (.ok (met, others ++ [(key, read found)]))) := by
      have hm := (memberValue_takes hv).map fun value ↦ (met, others ++ [(key, value)])
      rw [taggedMember, if_neg hk]
      rwa [map_admitting] at hm
    rw [List.append_assoc] at hrest
    rw [List.flatMap_cons, admitting_append]
    by_cases hr : Readable (numbers found)
    · rw [admitting, if_pos hr] at hm ⊢
      exact .next hm hrest
    · rw [admitting, if_neg hr] at hm ⊢
      exact .fault hm

/-- A record with its tag first. -/
theorem tagged_takes (depth indent : Nat) {name text : String} {meaning : String → Option α} {a : α}
    (ha : meaning text = some a) (numbers : Json → List Float) (read : Json → Json) {fields : List (String × Json)}
    (h : ∀ field ∈ fields, field.1 ≠ name ∧
      Takes (value depth) (field.2.pretty (indent + 1)).toList (admitting (numbers field.2) (.ok (read field.2)))) :
    Takes (tagged (depth + 1) name meaning)
      ((Json.object ((name, .string text) :: fields)).pretty indent).toList
      (admitting (fields.flatMap fun field ↦ numbers field.2)
        (.ok (a, .named (fields.map fun (key, value) ↦ (key, read value))))) := by
  have hg : Gathers (taggedMember depth name meaning) (none, [])
      (memberTexts (indent + 1) ((name, .string text) :: fields))
      (admitting (fields.flatMap fun field ↦ numbers field.2)
        (.ok (some a, fields.map fun (key, value) ↦ (key, read value)))) := by
    refine .next ?_ (gathers_fields h (some a) [])
    rw [taggedMember, if_pos rfl]
    exact (once_takes (tag_takes ha (indent + 1))).map fun met ↦ (met, [])
  exact record_takes_of_admitting depth indent rfl hg fun rest ↦ Reads.pure _ rest

end Reader

end Json

/-! ### Properties -/

/-- What is read from the text of properties: without a finite number of events there is no institution. -/
def Properties.reread : Properties → Except Json.Fault Properties
  | institution name address events =>
    if events.isFinite then .ok (.institution name address events) else .error .unfit
  | properties => .ok properties

private theorem ElementKind.ofName?_name (kind : ElementKind) : ofName? kind.name = some kind := by
  cases kind <;> rfl

/-! ### Geometries -/

/-- A position as it is read from its text. -/
def LatLon.reread (position : LatLon) : Json :=
  .array [ofDouble position.latitude, ofDouble position.longitude]

/-- Coordinates as they are read from their text. -/
def Geometry.reread : Geometry → Json
  | point position => position.reread
  | lineString positions => .array (positions.map LatLon.reread)
  | polygon rings => .array (rings.map fun ring ↦ .array (ring.map LatLon.reread))

/-- What the loose reader finds in a geometry. -/
def Geometry.outline (geometry : Geometry) : Outline :=
  ⟨geometry.typeName, geometry.reread⟩

/-! ### Parts of features -/

section

variable [Numerals]

/-- A number or a string, as it is read from its text. -/
def Json.reread : Json → Json
  | double value => ofDouble (returned value)
  | value => value

/-- The number that a value is written as. -/
def Json.numbers : Json → List Float
  | double value => [value]
  | _ => []

private theorem Properties.fields_take (depth indent : Nat) (properties : Properties) :
    ∀ field ∈ ("name", Json.string properties.name) :: Properties.toJson.details properties,
      field.1 ≠ "element" ∧
        Takes (value depth) (field.2.pretty indent).toList (admitting field.2.numbers (.ok field.2.reread)) := by
  intro field hf
  rcases List.mem_cons.mp hf with rfl | hf
  · exact ⟨by simp, (Json.admitting_nil _).symm ▸ value_string_takes depth indent _⟩
  · cases properties with
    | institution name address events =>
      rcases List.mem_cons.mp hf with rfl | hf
      · exact ⟨by simp, (Json.admitting_nil _).symm ▸ value_string_takes depth indent address⟩
      · obtain rfl := List.mem_singleton.mp hf
        exact ⟨by simp, value_double_takes depth indent events⟩
    | _ => cases hf

private theorem readProperties_takes (depth indent : Nat) (properties : Properties) :
    Takes (readProperties (depth + 1)) (properties.toJson.pretty indent).toList
      (admitting properties.numbers (properties.map returned).reread) := by
  intro blanks rest hb hr
  have ht := tagged_takes depth indent (ElementKind.ofName?_name properties.kind) Json.numbers Json.reread
    (properties.fields_take depth (indent + 1)) blanks rest hb hr
  rw [Json.map_admitting]
  cases properties with
  | institution name address events =>
    apply ht.bind_admitting
    rw [Properties.map, Properties.reread]
    split_ifs with hf
    · have hs : (Json.double events).reread = .double (returned events) := if_pos hf
      simp only [Properties.name, Properties.toJson.details, List.map_cons, hs]
      exact Reads.pure _ rest
    · have hs : (Json.double events).reread = .null := if_neg hf
      simp only [Properties.name, Properties.toJson.details, List.map_cons, hs]
      exact Reads.throw _ rest
  | _ => exact ht.bind_admitting (Reads.pure _ rest)

private theorem LatLon.takes (depth indent : Nat) (position : LatLon) :
    Begins (position.toJson.pretty indent).toList ∧
      Takes (value (depth + 1)) (position.toJson.pretty indent).toList
        (admitting position.numbers (.ok (position.map returned).reread)) :=
  value_array_takes depth indent [position.latitude, position.longitude] fun number ↦
    ⟨Json.begins_double (indent + 1) number, value_double_takes depth (indent + 1) number⟩

private theorem LatLon.list_takes (depth indent : Nat) (positions : List LatLon) :
    Begins ((Json.array (positions.map LatLon.toJson)).pretty indent).toList ∧
      Takes (value (depth + 2)) ((Json.array (positions.map LatLon.toJson)).pretty indent).toList
        (admitting (positions.flatMap LatLon.numbers)
          (.ok (.array ((positions.map (LatLon.map returned)).map LatLon.reread)))) := by
  rw [List.map_map]
  exact value_array_takes (depth + 1) indent positions (LatLon.takes depth (indent + 1))

/-- Coordinates of any type. -/
theorem Geometry.coordinates_take (depth indent : Nat) (geometry : Geometry) :
    Takes (value (depth + 3)) (geometry.coordinates.pretty indent).toList
      (admitting geometry.numbers (.ok (geometry.map returned).reread)) := by
  cases geometry with
  | point position =>
    rw [numbers, positions, List.flatMap_singleton]
    exact (position.takes (depth + 2) indent).2
  | lineString positions => exact (LatLon.list_takes (depth + 1) indent positions).2
  | polygon rings =>
    have ht := (value_array_takes (depth + 2) indent rings (LatLon.list_takes depth (indent + 1))).2
    rw [← List.flatMap_assoc, List.flatMap_id'] at ht
    rw [map, reread, List.map_map]
    exact ht

private theorem readOutline_takes (depth indent : Nat) (geometry : Geometry) :
    Takes (readOutline (depth + 4)) (geometry.toJson.pretty indent).toList
      (admitting geometry.numbers (.ok (geometry.map returned).outline)) := by
  have ht := (once_takes (string_takes geometry.typeName)).map fun type ↦
    ({ type } : OutlineFields)
  have hc := (once_takes (geometry.coordinates_take depth (indent + 1))).map fun coordinates ↦
    ({ type := some geometry.typeName, coordinates } : OutlineFields)
  rw [Json.map_admitting, Json.map_admitting] at hc
  apply record_takes_of_admitting (depth + 3) indent rfl (.next ht (.last hc))
  intro rest
  cases geometry <;> exact Reads.pure _ rest

/-! ### Features and documents -/

/-- What is found in the text of a feature if all numbers are found again. -/
def Feature.reread (found : Geometry → γ) (feature : Feature) : Except Json.Fault (Properties × γ) :=
  feature.properties.reread.map (·, found feature.geometry)

/-- What a reader of geometries finds in the text of a feature. -/
def Feature.readBack (found : Geometry → γ) (feature : Feature) : Except Json.Fault (Properties × γ) := do
  let properties ← admitting feature.properties.numbers (feature.properties.map returned).reread
  admitting feature.geometry.numbers (.ok (properties, found (feature.geometry.map returned)))

section

variable {geometry : Nat → Json.Reader γ} {found : Geometry → γ} {depth : Nat} {good : Geometry → Prop}
  (h : ∀ indent shape, good shape → Takes (geometry (depth + 1)) (shape.toJson.pretty indent).toList
    (admitting shape.numbers (.ok (found (shape.map returned)))))

include h

private theorem readFeature_takes (indent : Nat) {feature : Feature} (hf : good feature.geometry) :
    Takes (readFeature geometry (depth + 2)) (feature.toJson.pretty indent).toList
      (feature.readBack found) := by
  have ht := (memberValue_takes (skip_takes "Feature" (by decide))).map fun _ ↦
    ({} : FeatureFields γ)
  have hp := (once_takes (readProperties_takes depth (indent + 1) feature.properties)).map fun properties ↦
    ({ properties } : FeatureFields γ)
  rw [Feature.readBack]
  cases hr : admitting feature.properties.numbers (feature.properties.map returned).reread with
  | error fault =>
    rw [hr] at hp
    apply record_takes (depth + 1) indent rfl (.next ht (.fault hp))
    intro rest
    rfl
  | ok properties =>
    rw [hr] at hp
    have hg := (once_takes (h (indent + 1) feature.geometry hf)).map fun geometry ↦
      ({ properties := some properties, geometry } : FeatureFields γ)
    rw [Json.map_admitting, Json.map_admitting] at hg
    apply record_takes_of_admitting (depth + 1) indent rfl (.next ht (.next hp (.last hg)))
    intro rest
    exact Reads.pure _ rest

/-- The features of a collection, the first that cannot be read deciding. -/
theorem readCollection_takes (indent : Nat) {document : Document}
    (hg : ∀ feature ∈ document.features, good feature.geometry) :
    Takes (readCollection geometry (depth + 4)) (document.toJson.pretty indent).toList
      (document.features.mapM (Feature.readBack found)) := by
  have ht := (memberValue_takes (skip_takes "FeatureCollection" (by decide))).map fun _ ↦
    (none : Option (List (Properties × γ)))
  have ha : Takes (array (depth + 3) (readFeature geometry))
      ((Json.array (document.features.map Feature.toJson)).pretty (indent + 1)).toList
      (document.features.mapM (Feature.readBack found)) := by
    intro blanks rest hb _
    have ha := arrayTail_reads (indent + 1) document.features
      (fun feature hf ↦ ⟨Json.begins_object (indent + 2) _, readFeature_takes h (indent + 2) (hg feature hf)⟩)
      rest
    rw [Json.pretty, toList_bracketed, Json.prettyItems_eq, List.map_map, List.map_map]
    simp only [List.append_assoc]
    apply (Reads.peek hb (c := '[') rfl _).bind
    exact (Reads.eat '[' _).bind ha
  have hf := once_takes ha
  cases hr : document.features.mapM (Feature.readBack found) with
  | error fault =>
    rw [hr] at hf
    apply record_takes (depth + 3) indent rfl (.next ht (.fault hf))
    intro rest
    rfl
  | ok features =>
    rw [hr] at hf
    apply record_takes (depth + 3) indent rfl (.next ht (.next hf (.done _)))
    intro rest
    exact Reads.pure _ rest

end

private theorem Feature.readBack_eq_ok {found : Geometry → γ} {feature : Feature} {read : Properties × γ} :
    feature.readBack found = .ok read ↔
      Readable feature.numbers ∧ (feature.map returned).reread found = .ok read := by
  rw [readBack, reread, map, numbers]
  constructor
  · intro h
    obtain ⟨properties, hp, hg⟩ := exists_of_bind_eq_ok h
    obtain ⟨hnp, hp⟩ := Json.admitting_eq_ok.mp hp
    obtain ⟨hng, hg⟩ := Json.admitting_eq_ok.mp hg
    cases hg
    exact ⟨List.forall_mem_append.mpr ⟨hnp, hng⟩, by rw [hp]; rfl⟩
  · rintro ⟨hn, h⟩
    obtain ⟨hnp, hng⟩ : Readable feature.properties.numbers ∧ Readable feature.geometry.numbers :=
      List.forall_mem_append.mp hn
    simp only [admitting, if_pos hnp, if_pos hng]
    cases hp : (feature.properties.map returned).reread with
    | error fault =>
      rw [hp] at h
      cases h
    | ok properties =>
      rw [hp] at h
      exact h

/-- So it is with all features of a document. -/
theorem mapM_readBack_eq_ok {found : Geometry → γ} {features : List Feature} {read : List (Properties × γ)} :
    features.mapM (Feature.readBack found) = .ok read ↔
      Readable (features.flatMap Feature.numbers) ∧
        (features.map (Feature.map returned)).mapM (Feature.reread found) = .ok read := by
  have hn : Readable (features.flatMap Feature.numbers) ↔ ∀ feature ∈ features, Readable feature.numbers :=
    List.forall_mem_flatMap
  simp only [hn, mapM_eq_ok_iff, List.forall₂_map_left_iff, Feature.readBack_eq_ok, List.forall₂_and_left]

/-- A document with faithful numbers does not change on its way through a text. -/
theorem Document.map_returned {document : Document} (h : Faithful document.numbers) :
    document.map returned = document :=
  map_eq (Json.faithful_iff.mp h).2

/-- The features in the text of a document, as the loose reader sees them. -/
theorem readOutlines_eq_ok {document : Document} {found : List (Properties × Outline)} :
    readOutlines document.text = .ok found ↔ Readable document.numbers ∧
      (document.map returned).features.mapM (Feature.reread Geometry.outline) = .ok found := by
  have ho (indent : Nat) (shape : Geometry) (_ : True) := readOutline_takes 120 indent shape
  have hr : readOutlines document.text = document.features.mapM (Feature.readBack Geometry.outline) :=
    readAll_eq (readCollection_takes ho 0 fun _ _ ↦ True.intro)
  rw [hr, mapM_readBack_eq_ok]
  rfl

end

end Cityscape
