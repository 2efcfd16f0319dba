import Mathlib.Data.List.FinRange
import Cityscape.Proofs.Building
import Cityscape.Proofs.Layout

/-!
# Elements do not know of each other

What an element comes to depends on the variables of its city and on nothing that stands before it. So the
elements of an accepted script may change places, those of each group among themselves: the script is still
accepted, its city has the same name and the same variables, and features and strokes change places in the
same way.
-/

namespace Cityscape

variable {α β : Type} {related : α → β → Prop}

private theorem exists_ofFn_of_forall₂ {items : List α} {others : List β} (h : List.Forall₂ related items others) :
    ∃ other : Fin items.length → β, others = List.ofFn other ∧ ∀ i, related (items.get i) (other i) := by
  refine ⟨fun i ↦ others.get (i.cast h.length_eq), ?_, fun i ↦ ?_⟩
  · refine List.ext_getElem (by rw [List.length_ofFn, h.length_eq]) fun i _ _ ↦ ?_
    rw [List.getElem_ofFn]
    rfl
  · exact (List.forall₂_iff_get.mp h).2 i i.2 (h.length_eq ▸ i.2)

private theorem forall₂_ofFn {count : Nat} {item : Fin count → α} {other : Fin count → β}
    (h : ∀ i, related (item i) (other i)) : List.Forall₂ related (List.ofFn item) (List.ofFn other) := by
  refine List.forall₂_iff_get.mpr ⟨by rw [List.length_ofFn, List.length_ofFn], fun i hi hi' ↦ ?_⟩
  rw [List.get_ofFn, List.get_ofFn]
  exact h _

namespace Syntax.City

/-- The tree with the elements of each group in another order. -/
def rearrange (tree : City) (σ : Equiv.Perm (Fin tree.required.length))
    (τ : Equiv.Perm (Fin tree.optional.length)) : City :=
  { tree with
    first := tree.required.get (σ (0 : Fin (tree.mandatory.length + 1)))
    mandatory := List.ofFn fun i : Fin tree.mandatory.length ↦ tree.required.get (σ i.succ)
    optional := List.ofFn fun i ↦ tree.optional.get (τ i) }

variable (tree : City) (σ : Equiv.Perm (Fin tree.required.length)) (τ : Equiv.Perm (Fin tree.optional.length))

private theorem required_rearrange :
    (tree.rearrange σ τ).required = List.ofFn fun i ↦ tree.required.get (σ i) :=
  (List.ofFn_succ (f := fun i : Fin (tree.mandatory.length + 1) ↦ tree.required.get (σ i))).symm

private theorem required_rearrange_perm : (tree.rearrange σ τ).required.Perm tree.required := by
  rw [required_rearrange]
  have h := Equiv.Perm.ofFn_comp_perm σ tree.required.get
  rw [List.ofFn_get] at h
  exact h

private theorem optional_rearrange_perm : (tree.rearrange σ τ).optional.Perm tree.optional := by
  have h := Equiv.Perm.ofFn_comp_perm τ tree.optional.get
  rw [List.ofFn_get] at h
  exact h

private theorem tokens_rearrange_perm : (tree.rearrange σ τ).tokens.Perm tree.tokens := by
  have hm := (tree.required_rearrange_perm σ τ).flatMap_right Element.tokens
  have ho := (tree.optional_rearrange_perm σ τ).flatMap_right Element.tokens
  exact ((((hm.append ho).append_left tree.operations.tokens).append_right _).cons _ |>.cons _).cons _

private theorem has_rearrange (word : Keyword) : (tree.rearrange σ τ).has word = tree.has word :=
  (tree.required_rearrange_perm σ τ).any_eq

variable {tree}

private theorem check_rearrange (h : tree.check = .ok ()) : (tree.rearrange σ τ).check = .ok () := by
  rw [check_eq_ok, has_rearrange, has_rearrange]
  exact check_eq_ok.mp h

private theorem Builds.rearrange {city : Scope} {mandatory optional : List Cityscape.Element}
    (h : tree.Builds city mandatory optional) :
    ∃ (required : Fin tree.required.length → Cityscape.Element)
      (further : Fin tree.optional.length → Cityscape.Element),
      mandatory = List.ofFn required ∧ optional = List.ofFn further ∧
      ∀ σ τ, (tree.rearrange σ τ).Builds city (List.ofFn fun i ↦ required (σ i))
        (List.ofFn fun i ↦ further (τ i)) := by
  obtain ⟨required, rfl, hm⟩ := exists_ofFn_of_forall₂ h.mandatory
  obtain ⟨further, rfl, ho⟩ := exists_ofFn_of_forall₂ h.optional
  refine ⟨required, further, rfl, rfl, fun σ τ ↦ ⟨h.settled, check_rearrange σ τ h.complete, ?_, ?_⟩⟩
  · rw [required_rearrange]
    exact forall₂_ofFn fun i ↦ hm (σ i)
  · exact forall₂_ofFn fun i ↦ ho (τ i)

end Syntax.City

/--
The script is accepted with this city. Its features are those of the elements of the first group by number
and then those of the second, and its strokes are those of the same elements.
-/
structure Compilation.Shows {count count' : Nat} (compilation : Compilation) (city : City)
    (mandatory : Fin count → Element) (optional : Fin count' → Element) : Prop where
  result : compilation.result = .ok city
  features : city.document.features =
    (List.ofFn fun i ↦ (mandatory i).feature) ++ List.ofFn fun i ↦ (optional i).feature
  strokes : ∀ project, compilation.elements.flatMap (·.strokes project) =
    (List.ofFn fun i ↦ (mandatory i).strokes project).flatten ++
      (List.ofFn fun i ↦ (optional i).strokes project).flatten

private theorem shows_of_compile {source : Source} {capacity : Nat} {city : City} {count count' : Nat}
    {mandatory : Fin count → Element} {optional : Fin count' → Element}
    (h : (compile capacity source).result = .ok city)
    (he : city.elements = List.ofFn mandatory ++ List.ofFn optional) :
    (compile capacity source).Shows city mandatory optional where
  result := h
  features := by
    rw [City.document, features_of_compile h, he, List.map_append, List.map_ofFn, List.map_ofFn]
    rfl
  strokes project := by
    have hc : (compile capacity source).elements = city.elements := (Scan.compile_of_city h).1
    rw [hc, he, List.flatMap_append, List.flatMap_def, List.flatMap_def, List.map_ofFn,
      List.map_ofFn]
    rfl

/--
The elements of an accepted script, keyword to closing brace, may change places within their groups. The tokens
of the script are those of a tree, and for every such tree the elements come with numbers. In whatever order of
each group, there is a source that spells the tree in this order, and every source that does is accepted: with
the same name and the same variables, and with features and strokes that have changed places like the elements.
-/
theorem compile_rearranged {source : Source} {capacity : Nat} {city : City}
    (h : (compile capacity source).result = .ok city) :
    (∃ (tree : Syntax.City) (last : Token), tokenize source = .ok (tree.tokens ++ [last])) ∧
    ∀ (tree : Syntax.City) (last : Token), tokenize source = .ok (tree.tokens ++ [last]) →
      ∃ (mandatory : Fin tree.required.length → Element) (optional : Fin tree.optional.length → Element),
        (compile capacity source).Shows city mandatory optional ∧
        ∀ (σ : Equiv.Perm (Fin tree.required.length)) (τ : Equiv.Perm (Fin tree.optional.length)),
          (∃ source', Source.Spells source' (tree.rearrange σ τ).tokens) ∧
          ∀ source', Source.Spells source' (tree.rearrange σ τ).tokens → ∀ capacity', ∃ city',
            (compile capacity' source').Shows city' (fun i ↦ mandatory (σ i)) (fun i ↦ optional (τ i)) ∧
            city'.name = city.name ∧ city'.scopes = city.scopes := by
  constructor
  · obtain ⟨tree, last, ht, _⟩ := evaluation_of_compile h
    exact ⟨tree, last, ht⟩
  · intro tree last ht
    have hr : tree.evaluation.result = .ok city := by
      rw [compile_eq_compilation ht capacity] at h
      exact h
    obtain ⟨scope, _, _, hb, rfl⟩ := Syntax.City.builds_of_evaluation hr
    obtain ⟨mandatory, optional, rfl, rfl, hall⟩ := hb.rearrange
    refine ⟨mandatory, optional, shows_of_compile h rfl, fun σ τ ↦ ⟨?_, fun source' hs capacity' ↦ ?_⟩⟩
    · exact ⟨_, Source.spells_ofTokens ht fun token hm ↦ (tree.tokens_rearrange_perm σ τ).mem_iff.mp hm⟩
    · have hc := compile_of_spells hs (hall σ τ).evaluation_eq capacity'
      exact ⟨_, shows_of_compile hc rfl, rfl, rfl⟩

/-- A script in which elements declare variables that others and the city have too. -/
def shadowingScript : Source :=
  ("city \"A\"\x7bcoordinate p=(1,2)int n=5 street \"S\"\x7bint n=90 bend(p,p,n)line(p,p)\x7d"
    ++ "institution \"I\"\x7baddress=\"B\"events=n block(p,p,p,p)\x7d"
    ++ "statue \"D\"\x7bcoordinate p=(3,4)point p\x7dsquare \"Q\"\x7bblock(p,p,p,p)\x7d\x7d").toList

/-- The elements of the script may change places. -/
theorem compile_rearranged_shadowingScript :
    ∃ (city : City) (tree : Syntax.City) (last : Token), (compile 4 shadowingScript).result = .ok city ∧
      tokenize shadowingScript = .ok (tree.tokens ++ [last]) ∧
      ∀ σ τ, ∃ source' city', Source.Spells source' (tree.rearrange σ τ).tokens ∧
        (compile 4 source').result = .ok city' ∧ city'.scopes = city.scopes := by
  have h : (compile 4 shadowingScript).result.isOk = true := by
    decide +kernel
  cases hc : (compile 4 shadowingScript).result with
  | error fault =>
    rw [hc] at h
    cases h
  | ok city =>
    obtain ⟨⟨tree, last, ht⟩, hall⟩ := compile_rearranged hc
    refine ⟨city, tree, last, rfl, ht, fun σ τ ↦ ?_⟩
    obtain ⟨_, _, _, hp⟩ := hall tree last ht
    obtain ⟨⟨source', hs⟩, hp⟩ := hp σ τ
    obtain ⟨city', hs', _, hv⟩ := hp source' hs 4
    exact ⟨source', city', hs, hs'.result, hv⟩

end Cityscape
