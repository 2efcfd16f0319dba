import Cityscape.Json.Scaling
import Cityscape.Proofs.Script.City

/-!
# Documents, scripts and documents again

A document of the right shapes whose numbers are read back has a script, and the script compiles to a document
that keeps what scripts can say: kinds, names, addresses and numbers of events, points and corners as they were,
and streets and lakes through the positions that are used of them. No comparison sees the only change to a number,
which is the sign of a zero.
-/

namespace Cityscape

open Decimal (plain)

/-- Whether the geometry of a feature has enough positions for its kind. -/
def Feature.Shaped : Feature → Prop
  | ⟨.street _, .lineString positions⟩ => 3 ≤ positions.length
  | ⟨.institution .., .polygon (ring :: _)⟩ => 4 ≤ ring.length
  | ⟨.square _, .polygon (ring :: _)⟩ => 4 ≤ ring.length
  | ⟨.statue _, .point _⟩ => True
  | ⟨.lake _, .polygon (ring :: _)⟩ => ring ≠ []
  | _ => False

/-- A document that scripts can tell about: its shapes, texts, numbers and its order are as in a city. -/
structure Document.Regular (document : Document) : Prop where
  shaped : ∀ feature ∈ document.features, feature.Shaped
  sound : ∀ feature ∈ document.features, feature.properties.Sound
  finite : ∀ feature ∈ document.features, ∀ number ∈ feature.numbers, number.isFinite = true
  ordered : document.features.Pairwise fun feature later ↦
    later.properties.kind.group = .mandatory → feature.properties.kind.group = .mandatory
  street : ∃ feature ∈ document.features, feature.properties.kind = .street
  institution : ∃ feature ∈ document.features, feature.properties.kind = .institution

/-- Positions with finite numbers are finite. -/
theorem finite_of_numbers {positions : List LatLon}
    (h : ∀ number ∈ positions.flatMap LatLon.numbers, number.isFinite = true) :
    ∀ position ∈ positions, position.Finite := by
  intro position hp
  exact ⟨h _ (List.mem_flatMap.mpr ⟨position, hp, List.mem_cons_self⟩),
    h _ (List.mem_flatMap.mpr ⟨position, hp, List.mem_cons_of_mem _ List.mem_cons_self⟩)⟩

private theorem exists_four {α : Type} {ring : List α} (h : 4 ≤ ring.length) :
    ∃ first second third fourth more, ring = first :: second :: third :: fourth :: more := by
  rcases ring with _ | ⟨first, _ | ⟨second, _ | ⟨third, _ | ⟨fourth, more⟩⟩⟩⟩
  · simp at h
  · simp at h
  · simp at h
  · simp at h
  · exact ⟨first, second, third, fourth, more, rfl⟩

private theorem exists_three {α : Type} {line : List α} (h : 3 ≤ line.length) :
    ∃ first second third more, line = first :: second :: third :: more := by
  rcases line with _ | ⟨first, _ | ⟨second, _ | ⟨third, more⟩⟩⟩
  · simp at h
  · simp at h
  · simp at h
  · exact ⟨first, second, third, more, rfl⟩

private theorem Feature.Shaped.restores {feature : Feature} (h : feature.Shaped)
    (hf : ∀ number ∈ feature.numbers, number.isFinite = true) (options : Script.Options) :
    ∃ element, Restores options feature element := by
  rw [numbers, List.forall_mem_append] at hf
  obtain ⟨he, hp⟩ := hf
  replace hp := finite_of_numbers hp
  -- The positions of the first ring are among all positions.
  have hring {ring : List LatLon} {rings : List (List LatLon)}
      (hp : ∀ position ∈ (ring :: rings).flatten, position.Finite) : ∀ position ∈ ring, position.Finite :=
    fun position hm ↦ hp position (List.mem_append_left _ hm)
  unfold Shaped at h
  split at h
  · next name positions =>
    obtain ⟨first, second, third, more, rfl⟩ := exists_three h
    exact ⟨_, .street name hp⟩
  · next name address events ring rings =>
    obtain ⟨first, second, third, fourth, more, rfl⟩ := exists_four h
    exact ⟨_, .institution name address (he events List.mem_cons_self) (hring hp)⟩
  · next name ring rings =>
    obtain ⟨first, second, third, fourth, more, rfl⟩ := exists_four h
    exact ⟨_, .square name (hring hp)⟩
  · next name position => exact ⟨_, .statue name (hp position List.mem_cons_self)⟩
  · next name ring rings =>
    obtain ⟨center, more, rfl⟩ := List.exists_cons_of_ne_nil h
    exact ⟨_, .lake name (hring hp center List.mem_cons_self)⟩
  · exact h.elim

/-- A position without the signs of zeros. -/
def LatLon.plain (position : LatLon) : LatLon :=
  ⟨Decimal.plain position.latitude, Decimal.plain position.longitude⟩

/-- The ring of four corners. -/
def cornerRing (first second third fourth : LatLon) : Geometry :=
  .polygon [[first.plain, second.plain, third.plain, fourth.plain, first.plain]]

/-- The kind and the name of a feature. -/
def Feature.heading (feature : Feature) : ElementKind × String :=
  (feature.properties.kind, feature.properties.name)

/-- What a feature becomes on its way through a script. -/
inductive Feature.Kept (options : Script.Options) : Feature → Feature → Prop where
  | street (name : String) (first second third : LatLon) (more : List LatLon) :
    Kept options ⟨.street name, .lineString (first :: second :: third :: more)⟩
      (Element.street name (first.place.bend second.place (plain options.bendAngle))
        ⟨second.place, third.place⟩).feature
  | institution (name address : String) (events : Float) (first second third fourth : LatLon)
    (more : List LatLon) (rings : List (List LatLon)) :
    Kept options ⟨.institution name address events,
        .polygon ((first :: second :: third :: fourth :: more) :: rings)⟩
      ⟨.institution name address (plain events), cornerRing first second third fourth⟩
  | square (name : String) (first second third fourth : LatLon) (more : List LatLon)
    (rings : List (List LatLon)) :
    Kept options ⟨.square name, .polygon ((first :: second :: third :: fourth :: more) :: rings)⟩
      ⟨.square name, cornerRing first second third fourth⟩
  | statue (name : String) (position : LatLon) :
    Kept options ⟨.statue name, .point position⟩ ⟨.statue name, .point position.plain⟩
  | lake (name : String) (center : LatLon) (more : List LatLon) (rings : List (List LatLon)) :
    Kept options ⟨.lake name, .polygon ((center :: more) :: rings)⟩
      (Element.lakeAround name center.place (plain options.lakeRadius)).feature

private theorem Restores.kept {options : Script.Options} {feature : Feature} {element : Element}
    (h : Restores options feature element) : feature.Kept options element.feature := by
  cases h with
  | street name => exact .street name _ _ _ _
  | institution name address => exact .institution name address _ _ _ _ _ _ _
  | square name => exact .square name _ _ _ _ _ _
  | statue name => exact .statue name _
  | lake name => exact .lake name _ _ _

private theorem Feature.Kept.heading {options : Script.Options} {feature after : Feature}
    (h : feature.Kept options after) : after.heading = feature.heading := by
  cases h <;> rfl

private theorem map_heading_of_kept {options : Script.Options} {features after : List Feature}
    (h : List.Forall₂ (Feature.Kept options) features after) :
    after.map Feature.heading = features.map Feature.heading := by
  induction h with
  | nil => rfl
  | cons h _ ih => rw [List.map_cons, List.map_cons, h.heading, ih]

private theorem filter_append_filter {α : Type} {p : α → Bool} {xs : List α}
    (h : xs.Pairwise fun x y ↦ p y = true → p x = true) :
    xs = xs.filter p ++ xs.filter (!p ·) := by
  induction h with
  | nil => rfl
  | @cons x xs hx _ ih =>
    cases hp : p x with
    | true =>
      rw [List.filter_cons_of_pos hp, List.filter_cons_of_neg (by simp [hp]), List.cons_append, ← ih]
    | false =>
      have hn : ∀ y ∈ xs, p y = false := by
        intro y hy
        rw [Bool.eq_false_iff]
        intro hpy
        have := hx y hy hpy
        rw [hp] at this
        cases this
      have hf : xs.filter p = [] := by
        rw [List.filter_eq_nil_iff]
        simpa using hn
      have hr : xs.filter (!p ·) = xs := by
        rw [List.filter_eq_self]
        simpa using hn
      rw [List.filter_cons_of_neg (by simp [hp]), List.filter_cons_of_pos (by simp [hp]), hf, hr,
        List.nil_append]

/-- Whether a pairing belongs to the first group of a city. -/
def Pairing.isMandatory (pairing : Pairing) : Bool :=
  pairing.kind.group = .mandatory

private theorem exists_arrangement {options : Script.Options} {pairings : List Pairing}
    (ht : ∀ pairing ∈ pairings, pairing.Told options)
    (ho : pairings.Pairwise fun pairing later ↦ later.isMandatory = true → pairing.isMandatory = true)
    (hs : ∃ pairing ∈ pairings, pairing.kind = .street)
    (hi : ∃ pairing ∈ pairings, pairing.kind = .institution) :
    ∃ arrangement : Arrangement options, arrangement.pairings = pairings := by
  have hm {kind : ElementKind} (hk : kind.group = .mandatory) (h : ∃ pairing ∈ pairings, pairing.kind = kind) :
      ∃ pairing ∈ pairings.filter Pairing.isMandatory, pairing.kind = kind := by
    obtain ⟨pairing, hm, rfl⟩ := h
    exact ⟨pairing, List.mem_filter.mpr ⟨hm, decide_eq_true hk⟩, rfl⟩
  refine ⟨⟨pairings.filter Pairing.isMandatory, pairings.filter (!Pairing.isMandatory ·), ?_, ?_, hm rfl hs,
    hm rfl hi⟩, (filter_append_filter ho).symm⟩
  · intro pairing hp
    obtain ⟨hp, hg⟩ := List.mem_filter.mp hp
    exact ⟨ht pairing hp, of_decide_eq_true hg⟩
  · intro pairing hp
    obtain ⟨hp, hg⟩ := List.mem_filter.mp hp
    refine ⟨ht pairing hp, ?_⟩
    cases hk : pairing.kind.group with
    | mandatory => simp [Pairing.isMandatory, hk] at hg
    | optional => rfl

/-- A document whose features have stanzas, in an order that scripts can have. -/
structure Document.Told (options : Script.Options) (document : Document) : Prop where
  told : ∀ feature ∈ document.features, ∃ element, Pairing.Told options (feature, element)
  ordered : document.features.Pairwise fun feature later ↦
    later.properties.kind.group = .mandatory → feature.properties.kind.group = .mandatory
  street : ∃ feature ∈ document.features, feature.properties.kind = .street
  institution : ∃ feature ∈ document.features, feature.properties.kind = .institution

private theorem exists_pairings {options : Script.Options} {features : List Feature}
    (h : ∀ feature ∈ features, ∃ element, Pairing.Told options (feature, element)) :
    ∃ pairings : List Pairing, pairings.map Prod.fst = features ∧
      ∀ pairing ∈ pairings, pairing.Told options := by
  induction features with
  | nil => exact ⟨[], rfl, fun _ h ↦ nomatch h⟩
  | cons feature features ih =>
    obtain ⟨element, he⟩ := h feature List.mem_cons_self
    obtain ⟨pairings, rfl, ht⟩ := ih fun f hf ↦ h f (List.mem_cons_of_mem feature hf)
    refine ⟨(feature, element) :: pairings, rfl, ?_⟩
    intro pairing hp
    rcases List.mem_cons.mp hp with rfl | hp
    · exact he
    · exact ht pairing hp

/-- A document that is told has an arrangement. -/
theorem Document.Told.exists_arrangement {options : Script.Options} {document : Document}
    (h : document.Told options) : ∃ arrangement : Arrangement options, arrangement.document = document := by
  obtain ⟨pairings, hp, ht⟩ := exists_pairings h.told
  obtain ⟨features⟩ := document
  obtain rfl : pairings.map Prod.fst = features := hp
  have hk {kind : ElementKind} (he : ∃ feature ∈ pairings.map Prod.fst, feature.properties.kind = kind) :
      ∃ pairing ∈ pairings, pairing.kind = kind := by
    obtain ⟨feature, hm, he⟩ := he
    obtain ⟨pairing, hp, rfl⟩ := List.mem_map.mp hm
    exact ⟨pairing, hp, he⟩
  have ho : pairings.Pairwise fun pairing later ↦ later.isMandatory = true → pairing.isMandatory = true := by
    refine (List.pairwise_map.mp h.ordered).imp ?_
    intro pairing later hl hm
    exact decide_eq_true (hl (of_decide_eq_true hm))
  obtain ⟨arrangement, ha⟩ := Cityscape.exists_arrangement ht ho (hk h.street) (hk h.institution)
  refine ⟨arrangement, ?_⟩
  rw [Arrangement.document, ha]

private theorem Document.Regular.told {document : Document} (h : document.Regular) (options : Script.Options) :
    document.Told options where
  told := by
    intro feature hf
    obtain ⟨element, he⟩ := (h.shaped feature hf).restores (h.finite feature hf) options
    exact ⟨element, he, h.sound feature hf⟩
  ordered := h.ordered
  street := h.street
  institution := h.institution

private theorem Arrangement.kept {options : Script.Options} (arrangement : Arrangement options) :
    List.Forall₂ (Feature.Kept options) arrangement.document.features
      ((arrangement.pairings.map Prod.snd).map Element.feature) := by
  have ht : ∀ pairing ∈ arrangement.pairings, pairing.Told options := arrangement.told
  rw [Arrangement.document]
  change List.Forall₂ _ (arrangement.pairings.map Prod.fst) _
  generalize arrangement.pairings = pairings at ht
  induction pairings with
  | nil => exact .nil
  | cons pairing pairings ih =>
    exact .cons (ht pairing List.mem_cons_self).restores.kept
      (ih fun p hp ↦ ht p (List.mem_cons_of_mem pairing hp))

/--
A regular document whose written numbers are read back has a script for all sound options, and the script compiles to a
city with the name from the options whose document keeps the features: there are as many of them, with the same kinds
and names in the same order, and each is what `Feature.Kept` says. The numbers in them are equal to those of the
document and of the options.
-/
theorem compile_script_keeps [Json.Numerals] {document : Document} (h : document.Regular)
    (hn : Json.Faithful document.numbers) {options : Script.Options} (ho : options.Sound) (capacity : Nat) :
    ∃ script city, Script.ofText options document.text = .ok script ∧
      (compile capacity (Source.ofString script)).result = .ok city ∧
      city.name = options.cityName ∧
      city.document.features.length = document.features.length ∧
      city.document.features.map Feature.heading = document.features.map Feature.heading ∧
      List.Forall₂ (Feature.Kept options) document.features city.document.features ∧
      (∀ feature ∈ document.features, ∀ number ∈ feature.numbers, (plain number == number) = true) ∧
      ∀ number ∈ [options.bendAngle, options.lakeRadius], (plain number == number) = true := by
  obtain ⟨arrangement, rfl⟩ := (h.told options).exists_arrangement
  have hr := arrangement.readOutlines_eq (Document.map_returned hn).symm (Json.faithful_iff.mp hn).1
  obtain ⟨script, city, hs, hc, hname, he⟩ := arrangement.compiles hr ho capacity
  have hk := arrangement.kept
  rw [← he, ← features_of_compile hc] at hk
  refine ⟨script, city, hs, hc, hname, hk.length_eq.symm, map_heading_of_kept hk, hk, ?_, ?_⟩
  · intro feature hf number hm
    exact Decimal.plain_beq (h.finite feature hf number hm)
  · simp only [List.forall_mem_cons, Decimal.plain_beq ho.bendAngle, Decimal.plain_beq ho.lakeRadius,
      List.not_mem_nil, false_imp_iff, implies_true, and_self]

/-- A street through a negative zero, a block that stays open and a lake with one position. -/
def sampleDocument : Document where
  features := [
    ⟨.street "S", .lineString [⟨1, -2.5⟩, ⟨-0.0, 3⟩, ⟨4, 5e-300⟩]⟩,
    ⟨.institution "I" "B 1." 12.5, .polygon [[⟨0, 0⟩, ⟨0, 1⟩, ⟨1, 1⟩, ⟨1, 0⟩]]⟩,
    ⟨.lake "L", .polygon [[⟨1.5, -1e300⟩], []]⟩]

/-- The document is regular. -/
private theorem sampleDocument_regular : sampleDocument.Regular where
  shaped := by
    simp [sampleDocument, Feature.Shaped]
  sound := by
    simp only [sampleDocument, List.forall_mem_cons, List.not_mem_nil, false_imp_iff, implies_true, and_true,
      Properties.Sound, Properties.Holds]
    decide
  finite := by
    decide +kernel
  ordered := by
    decide
  street := ⟨_, List.mem_cons_self, rfl⟩
  institution := ⟨_, List.mem_cons_of_mem _ List.mem_cons_self, rfl⟩

/-- The usual options are sound. -/
theorem Script.Options.sound_default : ({} : Script.Options).Sound where
  cityName := by
    decide
  bendAngle := by
    decide +kernel
  lakeRadius := by
    decide +kernel

/-- The numbers are read back by scaling, and the document has a script that compiles to three features. -/
theorem compile_script_keeps_sampleDocument :
    Json.Faithful sampleDocument.numbers ∧ ∃ script city, Script.ofText {} sampleDocument.text = .ok script ∧
      (compile 4 (Source.ofString script)).result = .ok city ∧ city.document.features.length = 3 := by
  have hn : Json.Faithful sampleDocument.numbers := by
    decide +kernel
  obtain ⟨script, city, hs, hc, _, hl, _⟩ :=
    compile_script_keeps sampleDocument_regular hn Script.Options.sound_default 4
  exact ⟨hn, script, city, hs, hc, hl⟩

end Cityscape
