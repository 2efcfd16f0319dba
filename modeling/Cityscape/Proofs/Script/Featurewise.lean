import Cityscape.Proofs.Feature.Agreement

/-!
# Scripts feature by feature

A script is put together from one stanza for each feature, and the first feature without a stanza decides. So what
becomes of a document is known from what becomes of its features alone. A feature has a stanza if its coordinates
fit the rule of its geometry: only positions that are written need to be there, but a street and a block look at all
positions of their list.
-/

namespace Cityscape

namespace Json

/-- Whether a value is a number. -/
def isNumber : Json → Bool
  | integer _ | double _ => true
  | _ => false

/-- Whether a value is an array that starts with two numbers. -/
def isPosition : Json → Bool
  | array (latitude :: longitude :: _) => latitude.isNumber && longitude.isNumber
  | _ => false

/-- Whether a value is an array of positions, and of how many at least. -/
def arePositions (least : Nat) : Json → Bool
  | array items => decide (least ≤ items.length) && items.all isPosition
  | _ => false

/-- The first entry of an array. -/
def first? : Json → Option Json
  | array (item :: _) => some item
  | _ => none

/-- Whether the first entry of the first entry is a position. -/
def hasCenter (value : Json) : Bool :=
  (value.first?.bind first?).any isPosition

private theorem Finite.first {value item : Json} (hf : value.Finite) (h : value.first? = some item) : item.Finite := by
  rcases value with _ | _ | _ | _ | _ | (_ | _) | _ <;> cases h
  exact hf.items _ List.mem_cons_self

end Json

/--
Whether the coordinates of a feature fit its rule: those of a lake and of an unknown type need a position to centre
a circle on, all others the positions that their type asks for.
-/
def Outline.fits (kind : ElementKind) (outline : Outline) : Bool :=
  if kind = .lake then outline.coordinates.hasCenter
  else match outline.type with
    | "LineString" => outline.coordinates.arePositions 3
    | "Polygon" => outline.coordinates.first?.any (Json.arePositions 4)
    | "Point" => outline.coordinates.isPosition
    | _ => outline.coordinates.hasCenter

private theorem Outline.fits_other {kind : ElementKind} {outline : Outline} (hk : kind ≠ .lake)
    (hline : outline.type ≠ "LineString") (hpolygon : outline.type ≠ "Polygon") (hpoint : outline.type ≠ "Point") :
    outline.fits kind = outline.coordinates.hasCenter := by
  rw [fits, if_neg hk]
  split
  · next ht => exact absurd ht hline
  · next ht => exact absurd ht hpolygon
  · next ht => exact absurd ht hpoint
  · rfl

namespace Script

variable {options : Options} {value : Json} {items : List Json}

/-- What a value needs to be a number. -/
theorem number?_eq_some {number : Float} (h : value.number? = some number) : value.isNumber = true := by
  cases value <;> first | rfl | cases h

private theorem exists_number? (h : value.isNumber = true) : ∃ number, value.number? = some number := by
  cases value <;> first | exact ⟨_, rfl⟩ | cases h

private theorem position_iff : (∃ found, position value = .ok found) ↔ value.isPosition = true := by
  constructor
  · rintro ⟨found, h⟩
    unfold position at h
    split at h
    · next latitude longitude _ =>
      split at h
      · next hlat hlon =>
        exact Bool.and_eq_true_iff.mpr ⟨number?_eq_some hlat, number?_eq_some hlon⟩
      · cases h
    · cases h
  · intro h
    unfold Json.isPosition at h
    split at h
    · next latitude longitude _ =>
      obtain ⟨hlat, hlon⟩ := Bool.and_eq_true_iff.mp h
      obtain ⟨x, hx⟩ := exists_number? hlat
      obtain ⟨y, hy⟩ := exists_number? hlon
      exact ⟨⟨x, y⟩, by rw [position, hx, hy]⟩
    · cases h

/-- A position of finite numbers is finite. -/
theorem finite_position (hf : value.Finite) {found : LatLon} (h : position value = .ok found) : found.Finite := by
  unfold position at h
  split at h
  · next latitude longitude _ =>
    split at h
    · next hlat hlon =>
      cases h
      exact ⟨(hf.items latitude (by simp)).number hlat, (hf.items longitude (by simp)).number hlon⟩
    · cases h
  · cases h

private theorem positions_iff {least : Nat} :
    (∃ found, positions value = .ok found ∧ least ≤ found.length) ↔ value.arePositions least = true := by
  cases value with
  | array items =>
    simp only [Json.arePositions, Bool.and_eq_true, decide_eq_true_eq, List.all_eq_true, ← position_iff]
    rw [← exists_mapM_eq_ok_iff, ← exists_and_left]
    refine exists_congr fun found ↦ ?_
    rw [and_comm]
    refine and_congr_left fun hm ↦ ?_
    rw [(mapM_eq_ok_iff.mp hm).length_eq]
  | _ => exact ⟨fun ⟨_, h, _⟩ ↦ (nomatch h), (nomatch ·)⟩

/-- Positions of finite numbers are finite. -/
theorem finite_positions (hf : value.Finite) {found : List LatLon} (h : positions value = .ok found) :
    ∀ position ∈ found, position.Finite := by
  cases value with
  | array items =>
    replace hf := hf.items
    replace h := mapM_eq_ok_iff.mp h
    induction h with
    | nil => exact List.forall_mem_nil _
    | cons hp _ ih =>
      obtain ⟨hi, hf⟩ := List.forall_mem_cons.mp hf
      exact List.forall_mem_cons.mpr ⟨finite_position hi hp, ih hf⟩
  | _ => cases h

/-- Both ways to look at the first entry are the same. -/
theorem firstItem?_eq (value : Json) : firstItem? value = value.first? := by
  rcases value with _ | _ | _ | _ | _ | (_ | _) | _ <;> rfl

/-- So are both ways to look at the first entry of the first entry. -/
theorem firstItem?_bind (value : Json) : (firstItem? value >>= firstItem?) = value.first?.bind Json.first? := by
  rw [firstItem?_eq, show firstItem? = Json.first? from funext firstItem?_eq]
  rfl

private theorem exists_number {number : Float} (h : number.isFinite = true) : ∃ text, Script.number number = .ok text :=
  (number_writes h).imp fun _ h ↦ h.1

/-- A finite position is written. -/
theorem exists_coordinate {place : LatLon} (h : place.Finite) : ∃ text, coordinate place = .ok text :=
  (coordinate_writes h).imp fun _ h ↦ h.1

section

variable {coordinates : Json} (hf : coordinates.Finite)

include hf

private theorem streetLines_iff (ha : options.bendAngle.isFinite = true) :
    (∃ lines, streetLines options coordinates = .ok lines) ↔ coordinates.arePositions 3 = true := by
  rw [← positions_iff]
  constructor
  · rintro ⟨lines, h⟩
    obtain ⟨found, hp, h⟩ := exists_of_bind_eq_ok h
    refine ⟨found, hp, ?_⟩
    split at h
    · simp
    · cases h
  · rintro ⟨found, hp, hl⟩
    have hfinite := finite_positions hf hp
    obtain ⟨first, second, third, more, rfl⟩ :
        ∃ first second third more, found = first :: second :: third :: more := by
      match found, hl with
      | first :: second :: third :: more, _ => exact ⟨first, second, third, more, rfl⟩
    simp only [List.forall_mem_cons] at hfinite
    obtain ⟨h1, h2, h3, _⟩ := hfinite
    obtain ⟨angle, ha⟩ := exists_number ha
    obtain ⟨t1, h1⟩ := exists_coordinate h1
    obtain ⟨t2, h2⟩ := exists_coordinate h2
    obtain ⟨t3, h3⟩ := exists_coordinate h3
    simp only [streetLines, hp, ha, h1, h2, h3, Bind.bind, Except.bind]
    exact ⟨_, rfl⟩

private theorem blockLines_iff :
    (∃ lines, blockLines coordinates = .ok lines) ↔ coordinates.first?.any (Json.arePositions 4) = true := by
  cases hr : coordinates.first? with
  | none =>
    simp only [blockLines, firstItem?_eq, hr]
    constructor
    · rintro ⟨lines, h⟩
      cases h
    · intro h
      cases h
  | some ring =>
    have hring := hf.first hr
    simp only [blockLines, firstItem?_eq, hr, Option.any_some, ← positions_iff]
    constructor
    · rintro ⟨lines, h⟩
      obtain ⟨found, hp, h⟩ := exists_of_bind_eq_ok (show positions ring >>= _ = _ from h)
      refine ⟨found, hp, ?_⟩
      split at h
      · cases h
      · omega
    · rintro ⟨found, hp, hl⟩
      have hfinite := finite_positions hring hp
      obtain ⟨corners, hc⟩ := exists_mapM_eq_ok_iff.mpr fun place hm ↦
        exists_coordinate (hfinite place (List.mem_of_mem_take (i := 4) hm))
      simp only [orRefuse, hp, hc, if_neg (Nat.not_lt.mpr hl), Bind.bind, Except.bind]
      exact ⟨_, rfl⟩

private theorem pointLines_iff : (∃ lines, pointLines coordinates = .ok lines) ↔ coordinates.isPosition = true := by
  rw [← position_iff]
  constructor
  · rintro ⟨lines, h⟩
    obtain ⟨found, hp, _⟩ := exists_of_bind_eq_ok h
    exact ⟨found, hp⟩
  · rintro ⟨found, hp⟩
    obtain ⟨text, ht⟩ := exists_coordinate (finite_position hf hp)
    exact ⟨_, by rw [pointLines, hp]; simp only [ht, Bind.bind, Except.bind]; rfl⟩

private theorem circleLines_iff (hr : options.lakeRadius.isFinite = true) :
    (∃ lines, circleLines options coordinates = .ok lines) ↔ coordinates.hasCenter = true := by
  rw [circleLines, firstItem?_bind, Json.hasCenter]
  cases hc : coordinates.first?.bind Json.first? with
  | none =>
    constructor
    · rintro ⟨lines, h⟩
      cases h
    · intro h
      cases h
  | some center =>
    obtain ⟨ring, hring, hcenter⟩ := Option.bind_eq_some_iff.mp hc
    rw [Option.any_some, ← position_iff]
    constructor
    · rintro ⟨lines, h⟩
      obtain ⟨found, hp, _⟩ := exists_of_bind_eq_ok (show position center >>= _ = _ from h)
      exact ⟨found, hp⟩
    · rintro ⟨found, hp⟩
      obtain ⟨radius, hr⟩ := exists_number hr
      obtain ⟨text, ht⟩ := exists_coordinate (finite_position ((hf.first hring).first hcenter) hp)
      simp only [orRefuse, hp, hr, ht, Bind.bind, Except.bind]
      exact ⟨_, rfl⟩

end

private theorem shapeLines_iff {outline : Outline} (hf : outline.coordinates.Finite)
    (ha : options.bendAngle.isFinite = true) (hr : options.lakeRadius.isFinite = true) (kind : ElementKind) :
    (∃ lines, shapeLines options kind outline = .ok lines) ↔ outline.fits kind = true := by
  by_cases hk : kind = .lake
  · rw [shapeLines, Outline.fits, if_pos hk, if_pos hk]
    exact circleLines_iff hf hr
  rw [shapeLines, if_neg hk]
  split
  · next ht =>
    rw [Outline.fits, if_neg hk, ht]
    exact streetLines_iff hf ha
  · next ht =>
    rw [Outline.fits, if_neg hk, ht]
    exact blockLines_iff hf
  · next ht =>
    rw [Outline.fits, if_neg hk, ht]
    exact pointLines_iff hf
  · next hline hpolygon hpoint =>
    rw [Outline.fits_other hk hline hpolygon hpoint]
    exact circleLines_iff hf hr

variable {feature : Properties × Outline} {features : List (Properties × Outline)}

private theorem stanza_iff (hp : feature.1.Finite) (hf : feature.2.coordinates.Finite)
    (ha : options.bendAngle.isFinite = true) (hr : options.lakeRadius.isFinite = true) :
    (∃ text, stanza options feature.1 feature.2 = .ok text) ↔ feature.2.fits feature.1.kind = true := by
  obtain ⟨details, hd⟩ : ∃ details, detailLines feature.1 = .ok details := by
    obtain ⟨properties, outline⟩ := feature
    cases properties with
    | institution name address events =>
      obtain ⟨text, ht⟩ := exists_number (hp events List.mem_cons_self)
      exact ⟨_, by simp only [detailLines, ht, Bind.bind, Except.bind]; rfl⟩
    | _ => exact ⟨[], rfl⟩
  rw [← shapeLines_iff hf ha hr]
  constructor
  · rintro ⟨text, h⟩
    obtain ⟨_, _, h⟩ := exists_of_bind_eq_ok h
    obtain ⟨lines, hl, _⟩ := exists_of_bind_eq_ok h
    exact ⟨lines, hl⟩
  · rintro ⟨lines, hl⟩
    simp only [stanza, hd, hl, Bind.bind, Except.bind]
    exact ⟨_, rfl⟩

private theorem stanzas_eq_ok_iff {index : Nat} {texts : List String} :
    stanzas options index features = .ok texts ↔
      List.Forall₂ (fun feature text ↦ stanza options feature.1 feature.2 = .ok text) features texts := by
  constructor
  · intro h
    induction features generalizing index texts with
    | nil =>
      cases h
      exact .nil
    | cons feature features ih =>
      rw [stanzas] at h
      split at h
      · cases h
      · next text ht =>
        obtain ⟨rest, hr, h⟩ := exists_of_bind_eq_ok h
        cases h
        exact .cons ht (ih hr)
  · intro h
    induction h generalizing index with
    | nil => rfl
    | cons ht _ ih =>
      rw [stanzas, ht]
      dsimp only
      rw [ih]
      rfl

private theorem exists_of_stanzas_eq_error {index : Nat} {fault : Fault}
    (h : stanzas options index features = .error fault) :
    ∃ front feature back reason, features = front ++ feature :: back ∧
      (∀ earlier ∈ front, ∃ text, stanza options earlier.1 earlier.2 = .ok text) ∧
      stanza options feature.1 feature.2 = .error reason ∧ fault = .shape (index + front.length) reason := by
  induction features generalizing index with
  | nil => cases h
  | cons feature features ih =>
    rw [stanzas] at h
    split at h
    · next reason hr =>
      cases h
      exact ⟨[], feature, features, reason, rfl, List.forall_mem_nil _, hr, rfl⟩
    · next text ht =>
      cases hs : stanzas options (index + 1) features with
      | ok texts =>
        rw [hs] at h
        cases h
      | error found =>
        rw [hs] at h
        cases h
        obtain ⟨front, last, back, reason, rfl, he, hr, rfl⟩ := ih hs
        refine ⟨feature :: front, last, back, reason, rfl, List.forall_mem_cons.mpr ⟨⟨text, ht⟩, he⟩, hr, ?_⟩
        rw [List.length_cons, Nat.add_assoc, Nat.add_comm 1]

private theorem ofOutlines_singleton_eq_ok {text : String} (h : stanza options feature.1 feature.2 = .ok text) :
    ofOutlines options [feature] = .ok (assemble options [text]) := by
  rw [ofOutlines, stanzas_eq_ok_iff.mpr (.cons h .nil)]
  rfl

private theorem ofOutlines_singleton_eq_error {reason : Reason}
    (h : stanza options feature.1 feature.2 = .error reason) :
    ofOutlines options [feature] = .error (.shape 0 reason) := by
  rw [ofOutlines, stanzas, h]
  rfl

private theorem ofOutlines_singleton_iff :
    (∃ script, ofOutlines options [feature] = .ok script) ↔
      ∃ text, stanza options feature.1 feature.2 = .ok text := by
  constructor
  · rintro ⟨script, h⟩
    cases hs : stanza options feature.1 feature.2 with
    | ok text => exact ⟨text, rfl⟩
    | error reason =>
      rw [ofOutlines_singleton_eq_error hs] at h
      cases h
  · rintro ⟨text, ht⟩
    exact ⟨_, ofOutlines_singleton_eq_ok ht⟩

private theorem exists_of_ofOutlines_eq_ok {script : String} (h : ofOutlines options features = .ok script) :
    ∃ stanzas, List.Forall₂ (fun feature stanza ↦ ofOutlines options [feature] = .ok (assemble options [stanza]))
      features stanzas ∧ script = assemble options stanzas := by
  obtain ⟨texts, hs, he⟩ := exists_of_bind_eq_ok h
  cases he
  exact ⟨texts, (stanzas_eq_ok_iff.mp hs).imp fun _ _ ↦ ofOutlines_singleton_eq_ok, rfl⟩

private theorem exists_of_ofOutlines_eq_error {fault : Fault} (h : ofOutlines options features = .error fault) :
    ∃ front feature back reason, features = front ++ feature :: back ∧
      (∀ earlier ∈ front, ∃ script, ofOutlines options [earlier] = .ok script) ∧
      ofOutlines options [feature] = .error (.shape 0 reason) ∧ fault = .shape front.length reason := by
  have hs : stanzas options 0 features = .error fault := by
    rw [ofOutlines] at h
    cases hf : stanzas options 0 features with
    | ok texts =>
      rw [hf] at h
      cases h
    | error found =>
      rw [hf] at h
      cases h
      rfl
  obtain ⟨front, feature, back, reason, hsplit, he, hr, rfl⟩ := exists_of_stanzas_eq_error hs
  refine ⟨front, feature, back, reason, hsplit, fun earlier hm ↦ ofOutlines_singleton_iff.mpr (he earlier hm),
    ofOutlines_singleton_eq_error hr, ?_⟩
  rw [Nat.zero_add]

private theorem ofOutlines_iff :
    (∃ script, ofOutlines options features = .ok script) ↔
      ∀ feature ∈ features, ∃ script, ofOutlines options [feature] = .ok script := by
  constructor
  · rintro ⟨script, h⟩
    obtain ⟨stanzas, hs, _⟩ := exists_of_ofOutlines_eq_ok h
    exact forall_mem_of_forall₂ hs fun _ _ hs ↦ ⟨_, hs⟩
  · intro hall
    cases h : ofOutlines options features with
    | ok script => exact ⟨script, rfl⟩
    | error fault =>
      obtain ⟨front, feature, back, reason, rfl, _, he, _⟩ := exists_of_ofOutlines_eq_error h
      obtain ⟨script, hs⟩ := hall feature (by simp)
      cases he.symm.trans hs

/--
What becomes of a document is known from its features alone. It has a script if each of its features has one, and
then the script is the first line, the stanzas from the scripts of the single features in their order, and the last
line. Otherwise the first feature without a script of its own decides, with its index and its reason. With finite
options, a feature has a script if its coordinates fit.
-/
theorem ofText_featurewise [Json.Numerals] {text : String} (h : readOutlines text = .ok features) (options : Options) :
    ((∃ script, ofText options text = .ok script) ↔
        ∀ feature ∈ features, ∃ script, ofOutlines options [feature] = .ok script) ∧
      (∀ script, ofText options text = .ok script → ∃ stanzas,
        List.Forall₂ (fun feature stanza ↦ ofOutlines options [feature] = .ok (assemble options [stanza]))
          features stanzas ∧ script = assemble options stanzas) ∧
      (∀ fault, ofText options text = .error fault → ∃ front feature back reason,
        features = front ++ feature :: back ∧
        (∀ earlier ∈ front, ∃ script, ofOutlines options [earlier] = .ok script) ∧
        ofOutlines options [feature] = .error (.shape 0 reason) ∧ fault = .shape front.length reason) ∧
      (options.bendAngle.isFinite = true → options.lakeRadius.isFinite = true → ∀ feature ∈ features,
        (∃ script, ofOutlines options [feature] = .ok script) ↔ feature.2.fits feature.1.kind = true) := by
  have ht : ofText options text = ofOutlines options features := by rw [ofText, h]
  rw [ht]
  refine ⟨ofOutlines_iff, fun _ ↦ exists_of_ofOutlines_eq_ok, fun _ ↦ exists_of_ofOutlines_eq_error,
    fun ha hr feature hm ↦ ?_⟩
  obtain ⟨hp, hf⟩ := finite_of_readOutlines h feature hm
  rw [ofOutlines_singleton_iff, stanza_iff hp hf ha hr]

/-- A statue and a street with one position, with records as objects and as arrays. -/
def patchyText : String :=
  "\x7b\"features\": [[\x7b\"name\": \"a\", \"element\": \"Statue\"\x7d, "
    ++ "\x7b\"coordinates\": [1, 2], \"x\": [], \"type\": \"Point\"\x7d], "
    ++ "\x7b\"geometry\": [\"LineString\", [[1, 2]]], \"properties\": [\"Street\", \"S\"]\x7d]\x7d"

/-- The street has no script, so there is none at all. -/
theorem ofText_featurewise_patchyText :
    ∃ features, readOutlines patchyText = .ok features ∧
      features.map (fun feature ↦ feature.2.fits feature.1.kind) = [true, false] ∧
      ¬ ∃ script, ofText {} patchyText = .ok script := by
  have hfits : (readOutlines patchyText).toOption.map (·.map fun feature ↦ feature.2.fits feature.1.kind) =
      some [true, false] := by
    decide +kernel
  have hoptions : ({} : Options).bendAngle.isFinite = true ∧ ({} : Options).lakeRadius.isFinite = true := by
    decide +kernel
  cases h : readOutlines patchyText with
  | error fault =>
    rw [h] at hfits
    cases hfits
  | ok features =>
    rw [h] at hfits
    have hfits := Option.some.inj hfits
    refine ⟨features, rfl, hfits, fun hs ↦ ?_⟩
    obtain ⟨hall, _, _, hfit⟩ := ofText_featurewise h {}
    have hf : false ∈ features.map fun feature ↦ feature.2.fits feature.1.kind := by simp [hfits]
    obtain ⟨feature, hm, hf⟩ := List.mem_map.mp hf
    have ht := (hfit hoptions.1 hoptions.2 feature hm).mp (hall.mp hs feature hm)
    cases hf.symm.trans ht

end Script

end Cityscape
