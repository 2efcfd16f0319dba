import Cityscape.Proofs.Script.Stanza
import Cityscape.Proofs.SinglePass

/-!
# Scripts of documents compile

The stanzas of a document follow each other, streets and institutions first, and a city is put around
them. Compiling the script performs one element after the other and ends with the elements that the
stanzas tell.
-/

namespace Cityscape

/-- A feature and the element that a script tells about it. -/
abbrev Pairing := Feature × Element

/-- The kind of the feature. -/
def Pairing.kind (pairing : Pairing) : ElementKind :=
  pairing.1.properties.kind

/-- What a script can tell about a feature. -/
structure Pairing.Told (options : Script.Options) (pairing : Pairing) : Prop where
  restores : Restores options pairing.1 pairing.2
  sound : pairing.1.properties.Sound

/-- What the tree of the stanza of a feature has to be. -/
def Pairing.Matches {group : Syntax.Group} (pairing : Pairing) (tree : Syntax.Element group) : Prop :=
  Tells pairing.kind.word pairing.2 tree

/-- The feature of a pairing as the loose reader sees it. -/
def Pairing.outlined (pairing : Pairing) : Properties × Outline :=
  (pairing.1.properties, pairing.1.geometry.outline)

private theorem Restores.reread {options : Script.Options} {feature : Feature} {element : Element}
    (h : Restores options feature element) :
    feature.reread Geometry.outline = .ok (feature.properties, feature.geometry.outline) := by
  cases h with
  | institution name address he h =>
    rw [Feature.reread, Properties.reread, if_pos he]
    rfl
  | _ => rfl

private theorem stanzas_write {options : Script.Options} (ho : options.Sound) {group : Syntax.Group}
    {pairings : List Pairing} (h : ∀ pairing ∈ pairings, pairing.Told options ∧ pairing.kind.group = group)
    (index : Nat) :
    ∃ texts, Script.stanzas options index (pairings.map Pairing.outlined) = .ok texts ∧
      ∀ rest, Writes (String.join texts).toList
        (fun trees : List (Syntax.Element group) ↦ Syntax.elementTokens trees)
        (List.Forall₂ Pairing.Matches pairings) rest := by
  induction pairings generalizing index with
  | nil => exact ⟨[], rfl, .nil [] rfl .nil⟩
  | cons pairing pairings ih =>
    obtain ⟨told, hg⟩ := h pairing List.mem_cons_self
    obtain ⟨text, ht, hw⟩ := stanza_writes ho told.restores told.sound
    change ∀ rest, Writes text.toList (fun tree : Syntax.Element pairing.kind.group ↦ tree.tokens)
      (Tells pairing.kind.word pairing.2) rest at hw
    rw [hg] at hw
    obtain ⟨texts, hts, hws⟩ := ih (fun e he ↦ h e (List.mem_cons_of_mem pairing he)) (index + 1)
    refine ⟨text :: texts, ?_, fun rest ↦ ?_⟩
    · rw [List.map_cons, Pairing.outlined, Script.stanzas, ht, hts]
      rfl
    · rw [String.join_cons, String.toList_append]
      exact ((hw _).append (hws rest)).map (fun (tree, trees) ↦ tree :: trees) (fun _ ↦ rfl)
        fun _ hg ↦ .cons hg.1 hg.2

private theorem stanzas_append {options : Script.Options} {index : Nat} {first second : List (Properties × Outline)}
    {texts texts' : List String} (h : Script.stanzas options index first = .ok texts)
    (h' : Script.stanzas options (index + first.length) second = .ok texts') :
    Script.stanzas options index (first ++ second) = .ok (texts ++ texts') := by
  induction first generalizing index texts with
  | nil =>
    cases h
    exact h'
  | cons outline first ih =>
    rw [Script.stanzas] at h
    split at h
    · cases h
    · next text ht =>
      cases hs : Script.stanzas options (index + 1) first with
      | error fault =>
        rw [hs] at h
        cases h
      | ok more =>
        rw [hs] at h
        cases h
        have hm := ih hs (by rwa [Nat.add_assoc, Nat.add_comm 1])
        rw [List.cons_append, Script.stanzas, ht, hm]
        rfl

private theorem perform_of_tells {group : Syntax.Group} {tree : Syntax.Element group} {word : Keyword}
    {element : Element} (h : Tells word element tree) (work : Work) :
    ∃ after, tree.perform.run work = .ok () after ∧ after.elements = work.elements ++ [element] := by
  obtain ⟨content, keyword, name, opening, operations, closing⟩ := tree
  obtain ⟨_, rfl, hc⟩ := h
  have hv : (Evaluate.value (content.evaluate name.1.unquoted)).run
      { work with scopes := work.scopes.clearElement } =
        .ok element { work with scopes := work.scopes.clearElement } := by
    have hc := hc work.scopes.clearElement
    simp only at hc
    simp only [EStateM.run, Evaluate.value, hc]
  have hp : (Syntax.Element.mk content keyword name opening .done closing).perform.run work =
      ((Evaluate.value (content.evaluate name.1.unquoted) >>= fun completed ↦ do
        Evaluate.complete completed keyword.1.position.line
        Evaluate.clearElement) : Evaluate Unit).run { work with scopes := work.scopes.clearElement } := rfl
  rw [hp, run_bind_of_ok hv]
  exact ⟨_, rfl, rfl⟩

private theorem forM_of_tells {group : Syntax.Group} {trees : List (Syntax.Element group)} {pairings : List Pairing}
    (h : List.Forall₂ Pairing.Matches pairings trees) (work : Work) :
    ∃ after, (trees.forM Syntax.Element.perform).run work = .ok () after ∧
      after.elements = work.elements ++ pairings.map Prod.snd := by
  induction h generalizing work with
  | nil => exact ⟨work, rfl, (List.append_nil _).symm⟩
  | cons h _ ih =>
    obtain ⟨after, hr, he⟩ := perform_of_tells h work
    obtain ⟨last, hr', he'⟩ := ih after
    refine ⟨last, ?_, ?_⟩
    · change (Syntax.Element.perform _ >>= fun _ ↦ _).run work = _
      rw [run_bind_of_ok hr]
      exact hr'
    · rw [he', he, List.append_assoc]
      rfl

private theorem any_of_tells {trees : List (Syntax.Element .mandatory)} {pairings : List Pairing} {kind : ElementKind}
    (h : List.Forall₂ Pairing.Matches pairings trees)
    (he : ∃ pairing ∈ pairings, pairing.kind = kind) :
    (trees.any fun tree ↦ tree.content.keyword = kind.word) = true := by
  induction h with
  | nil =>
    obtain ⟨_, hm, _⟩ := he
    cases hm
  | @cons pairing tree pairings trees ht _ ih =>
    rw [List.any_cons, Bool.or_eq_true, decide_eq_true_eq]
    obtain ⟨found, hm, rfl⟩ := he
    rcases List.mem_cons.mp hm with rfl | hm
    · exact .inl ht.keyword
    · exact .inr (ih ⟨found, hm, rfl⟩)

private theorem evaluation_of_tells {city : Syntax.City} {mandatory optional : List Pairing}
    (ho : city.operations = .done)
    (hm : List.Forall₂ Pairing.Matches mandatory city.required)
    (hp : List.Forall₂ Pairing.Matches optional city.optional)
    (hs : ∃ pairing ∈ mandatory, pairing.kind = .street)
    (hi : ∃ pairing ∈ mandatory, pairing.kind = .institution) :
    ∃ result, city.evaluation.result = .ok result ∧ result.name = city.name.1.unquoted ∧
      result.elements = (mandatory ++ optional).map Prod.snd := by
  have hc : city.check = .ok () := by
    have h1 : city.has .street = true := any_of_tells hm hs
    have h2 : city.has .institution = true := any_of_tells hm hi
    rw [Syntax.City.check, h1, h2]
    rfl
  have hstart : city.perform.run {} = (do
      city.required.forM Syntax.Element.perform
      Evaluate.ensure city.check
      city.optional.forM Syntax.Element.perform
      let work ← get
      return .ofElements city.name.1.unquoted work.elements work.scopes : Evaluate City).run { records :=
        [⟨(city.body.headD city.closing).position.line, "city \"" ++ city.name.1.unquoted ++ "\""⟩] } := by
    rw [Syntax.City.perform, ho]
    rfl
  obtain ⟨middle, hr, he⟩ := forM_of_tells hm ({ records :=
    [⟨(city.body.headD city.closing).position.line, "city \"" ++ city.name.1.unquoted ++ "\""⟩] } : Work)
  obtain ⟨last, hr', he'⟩ := forM_of_tells hp middle
  have hrun : city.perform.run {} = .ok (.ofElements city.name.1.unquoted last.elements last.scopes) last := by
    have he : (Evaluate.ensure city.check).run middle = .ok () middle := by
      rw [hc]
      rfl
    rw [hstart, run_bind_of_ok hr, run_bind_of_ok he, run_bind_of_ok hr']
    rfl
  refine ⟨.ofElements city.name.1.unquoted last.elements last.scopes, ?_, rfl, ?_⟩
  · rw [Syntax.City.evaluation, hrun]
  · rw [he', he, List.map_append]
    rfl

/-- Features with the elements that a script tells about them, in the order of a script. -/
structure Arrangement (options : Script.Options) where
  mandatory : List Pairing
  optional : List Pairing
  mandatory_told : ∀ pairing ∈ mandatory, pairing.Told options ∧ pairing.kind.group = .mandatory
  optional_told : ∀ pairing ∈ optional, pairing.Told options ∧ pairing.kind.group = .optional
  street : ∃ pairing ∈ mandatory, pairing.kind = .street
  institution : ∃ pairing ∈ mandatory, pairing.kind = .institution

namespace Arrangement

variable {options : Script.Options} (arrangement : Arrangement options)

/-- All features with their elements. -/
def pairings : List Pairing :=
  arrangement.mandatory ++ arrangement.optional

/-- The document of the features. -/
def document : Document :=
  ⟨arrangement.pairings.map Prod.fst⟩

/-- Scripts can tell about all features. -/
theorem told : ∀ pairing ∈ arrangement.pairings, pairing.Told options := by
  intro pairing hp
  rcases List.mem_append.mp hp with hp | hp
  · exact (arrangement.mandatory_told pairing hp).1
  · exact (arrangement.optional_told pairing hp).1

private theorem mapM_reread : arrangement.document.features.mapM (Feature.reread Geometry.outline) =
    .ok (arrangement.pairings.map Pairing.outlined) := by
  have ht := arrangement.told
  change (arrangement.pairings.map Prod.fst).mapM (Feature.reread Geometry.outline) = _
  generalize arrangement.pairings = pairings at ht
  induction pairings with
  | nil => rfl
  | cons pairing pairings ih =>
    rw [List.map_cons, List.mapM_cons, (ht pairing List.mem_cons_self).restores.reread,
      ih fun e he ↦ ht e (List.mem_cons_of_mem pairing he)]
    rfl

/-- What the tree of the script has to be. -/
structure Tree (city : Syntax.City) : Prop where
  name : city.name.1.unquoted = options.cityName
  operations : city.operations = .done
  required : List.Forall₂ Pairing.Matches arrangement.mandatory
    city.required
  optional : List.Forall₂ Pairing.Matches arrangement.optional
    city.optional

section

variable [Json.Numerals]

/-- The features of a document that is read as the one of the features. -/
theorem readOutlines_eq {document : Document} (h : arrangement.document = document.map Json.returned)
    (hn : Json.Readable document.numbers) :
    readOutlines document.text = .ok (arrangement.pairings.map Pairing.outlined) := by
  rw [readOutlines_eq_ok, ← h]
  exact ⟨hn, arrangement.mapM_reread⟩

variable {text : String} (h : readOutlines text = .ok (arrangement.pairings.map Pairing.outlined))

include h

private theorem script_writes (ho : options.Sound) :
    ∃ script, Script.ofText options text = .ok script ∧
      Writes script.toList Syntax.City.tokens arrangement.Tree [] := by
  obtain ⟨texts, ht, hw⟩ := stanzas_write ho arrangement.mandatory_told 0
  obtain ⟨texts', ht', hw'⟩ := stanzas_write ho arrangement.optional_told
    (0 + (arrangement.mandatory.map Pairing.outlined).length)
  refine ⟨Script.assemble options (texts ++ texts'), ?_, ?_⟩
  · have hs := stanzas_append ht ht'
    rw [← List.map_append] at hs
    rw [Script.ofText, h]
    simp only [Script.ofOutlines, pairings, hs]
    rfl
  · have hj : (Script.assemble options (texts ++ texts')).toList = "city".toList ++
        ((" ".toList ++ ("\"" ++ options.cityName ++ "\"").toList) ++ ((" ".toList ++ "\x7b".toList) ++
          (("\n\n".toList ++ (String.join texts).toList) ++ ((String.join texts').toList ++
            ("\x7d".toList ++ "\n".toList))))) := by
      simp [Script.assemble]
    rw [hj]
    refine ((Writes.word .city (by exact separate_cons rfl _)).append ((Writes.blanks _ (by decide)
      (literal_writes ho.cityName _)).append ((Writes.blanks _ (by decide)
        (Writes.sign .openBrace nofun)).append ((Writes.blanks _ (by decide) (hw _)).append
          ((hw' _).append (.trailing _ (by decide) (Writes.sign .closeBrace nofun))))))).exchange ?_
    rintro ⟨word, name, opening, required, optional, closing⟩ ⟨_, hn, _, hr, hp, _⟩
    obtain ⟨_, hs, _⟩ := arrangement.street
    cases required with
    | nil =>
      generalize arrangement.mandatory = mandatory at hr hs
      cases hr
      cases hs
    | cons first required =>
      refine ⟨⟨word, name, opening, .done, first, required, optional, closing⟩, ?_, hn, rfl, hr, hp⟩
      simp [Syntax.City.tokens, Syntax.City.body, Syntax.City.required, Syntax.Operations.tokens]

/-- A text of the document has a script, and the script compiles to the elements that it tells. -/
theorem compiles (ho : options.Sound) (capacity : Nat) :
    ∃ script city, Script.ofText options text = .ok script ∧
      (compile capacity (Source.ofString script)).result = .ok city ∧ city.name = options.cityName ∧
      city.elements = arrangement.pairings.map Prod.snd := by
  obtain ⟨script, hs, hw⟩ := arrangement.script_writes h ho
  obtain ⟨tree, hg, ht⟩ := hw.tokenize_eq
  obtain ⟨city, hr, hn, he⟩ := evaluation_of_tells hg.operations hg.required hg.optional arrangement.street
    arrangement.institution
  refine ⟨script, city, hs, ?_, hn.trans hg.name, he⟩
  rw [compile_eq_compilation ht capacity]
  exact hr

end

end Arrangement

end Cityscape
