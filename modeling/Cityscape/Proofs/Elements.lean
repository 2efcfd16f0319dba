import Cityscape.Proofs.Building
import Cityscape.Proofs.Outcome

/-!
# The elements of a city

What a tree builds is of the kind that its keyword says. So the elements of an accepted city are its streets
and institutions, at least one of each, and then its squares, statues and lakes, in the order of the script.
-/

namespace Cityscape

/-- The group of elements of a kind. -/
def ElementKind.group : ElementKind → Syntax.Group
  | street | institution => .mandatory
  | square | statue | lake => .optional

/-- The keyword of a kind. -/
def ElementKind.word : ElementKind → Keyword
  | street => .street
  | institution => .institution
  | square => .square
  | statue => .statue
  | lake => .lake

private theorem ElementKind.eq_of_word {kind other : ElementKind} (h : kind.word = other.word) : kind = other := by
  cases kind <;> cases other <;> first | rfl | cases h

/-- Whether a lake has samples. -/
def Element.Sampled : Element → Prop
  | lake _ _ _ samples => samples ≠ []
  | _ => True

/-- Whether an element can be what some content describes. -/
structure Element.Fits {group : Syntax.Group} (element : Element) (tree : Syntax.Element group) : Prop where
  group : element.kind.group = group
  word : element.kind.word = tree.content.keyword
  sampled : element.Sampled

namespace Syntax

/-- Content describes an element of its kind. -/
theorem Content.fits {group : Group} {content : Content group} {name : String} {scopes : Scopes}
    {element : Cityscape.Element} (h : content.evaluate name scopes = .ok element) :
    element.kind.group = group ∧ element.kind.word = content.keyword ∧ element.Sampled := by
  cases content with
  | street bend line =>
    obtain ⟨_, _, h⟩ := exists_of_bind_eq_ok h
    obtain ⟨_, _, h⟩ := exists_of_bind_eq_ok h
    cases h
    exact ⟨rfl, rfl, True.intro⟩
  | institution address events block =>
    obtain ⟨_, _, h⟩ := exists_of_bind_eq_ok h
    obtain ⟨_, _, h⟩ := exists_of_bind_eq_ok h
    obtain ⟨_, _, h⟩ := exists_of_bind_eq_ok h
    cases h
    exact ⟨rfl, rfl, True.intro⟩
  | square | statue =>
    obtain ⟨_, _, h⟩ := exists_of_bind_eq_ok h
    cases h
    exact ⟨rfl, rfl, True.intro⟩
  | lake circle =>
    obtain ⟨_, _, h⟩ := exists_of_bind_eq_ok h
    cases h
    exact ⟨rfl, rfl, List.cons_ne_nil _ _⟩

private theorem Element.Builds.fits {group : Group} {city : Scope} {tree : Element group}
    {element : Cityscape.Element} (h : tree.Builds city element) : element.Fits tree := by
  obtain ⟨_, he⟩ := h.described
  obtain ⟨hg, hw, hs⟩ := Content.fits he
  exact ⟨hg, hw, hs⟩

private theorem exists_of_has {city : City} {elements : List Cityscape.Element} {kind : ElementKind}
    (hf : List.Forall₂ (fun tree element ↦ element.Fits tree) city.required elements)
    (hh : city.has kind.word = true) : ∃ element ∈ elements, element.kind = kind := by
  rw [City.has, List.any_eq_true] at hh
  obtain ⟨tree, hm, hk⟩ := hh
  generalize city.required = trees at hf hm
  induction hf with
  | nil => cases hm
  | @cons other element others elements hf _ ih =>
    rcases List.mem_cons.mp hm with rfl | hm
    · refine ⟨element, List.mem_cons_self, ElementKind.eq_of_word ?_⟩
      rw [hf.word]
      exact of_decide_eq_true hk
    · obtain ⟨found, hf, he⟩ := ih hm
      exact ⟨found, List.mem_cons_of_mem element hf, he⟩

end Syntax

/-- Elements in the order of a city: some mandatory ones and then the optional ones. -/
structure Composed (elements mandatory optional : List Element) : Prop where
  parts : elements = mandatory ++ optional
  mandatory_group : ∀ element ∈ mandatory, element.kind.group = .mandatory
  optional_group : ∀ element ∈ optional, element.kind.group = .optional
  street : ∃ element ∈ mandatory, element.kind = .street
  institution : ∃ element ∈ mandatory, element.kind = .institution
  sampled : ∀ element ∈ elements, element.Sampled

namespace Syntax

private theorem fits_of_mem {group : Group} {trees : List (Element group)} {elements : List Cityscape.Element}
    (h : List.Forall₂ (fun tree element ↦ element.Fits tree) trees elements) :
    ∀ element ∈ elements, element.kind.group = group ∧ element.Sampled := by
  intro element he
  induction h with
  | nil => cases he
  | cons hf _ ih =>
    rcases List.mem_cons.mp he with rfl | he
    · exact ⟨hf.group, hf.sampled⟩
    · exact ih he

/-- The elements of an accepted city. -/
theorem City.composed {city : City} {result : Cityscape.City} (h : city.evaluation.result = .ok result) :
    ∃ mandatory optional, Composed result.elements mandatory optional := by
  obtain ⟨_, mandatory, optional, hb, rfl⟩ := builds_of_evaluation h
  have hm := hb.mandatory.imp fun _ _ h ↦ h.fits
  have ho := hb.optional.imp fun _ _ h ↦ h.fits
  obtain ⟨hstreet, hinstitution⟩ := check_eq_ok.mp hb.complete
  refine ⟨mandatory, optional, rfl, fun element he ↦ (fits_of_mem hm element he).1,
    fun element he ↦ (fits_of_mem ho element he).1, exists_of_has hm hstreet, exists_of_has hm hinstitution, ?_⟩
  intro element he
  rcases List.mem_append.mp he with he | he
  · exact (fits_of_mem hm element he).2
  · exact (fits_of_mem ho element he).2

end Syntax

end Cityscape
