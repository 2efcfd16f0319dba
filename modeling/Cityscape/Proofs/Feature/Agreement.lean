import Cityscape.Proofs.Feature.Reader
import Cityscape.Proofs.Json.Skipping

/-!
# Two readers of one format

The strict and the loose reader of documents share the frame of a document and differ in how they read geometries.
So one mirrors the other if the readers of geometries do. The loose reader of geometries mirrors the strict one, even
though it faults earlier if coordinates are given twice, skips fields that the strict one reads, and stops before the
blanks behind an array of fields.
-/

namespace Cityscape

open Json (Numerals Reader)
open Json.Reader

variable {α γ γ' : Type}

/-- Whether all numbers among fields are finite. -/
def Json.Reader.Fields.Finite : Fields → Prop
  | .named members => ∀ member ∈ members, member.2.Finite
  | .listed items => ∀ item ∈ items, item.Finite

private theorem tag_mirrors_string [Numerals] (meaning : String → Option α) :
    Mirrors (fun a name ↦ meaning name = some a) (tag meaning) string := by
  intro text a rest ht hr
  obtain ⟨name, middle, hs, hr⟩ := exists_of_run_bind hr
  obtain ⟨hm, _, hl, rfl⟩ := string_mirrors ht hs
  cases hn : meaning name with
  | none =>
    rw [hn] at hr
    cases hr
  | some found =>
    rw [hn] at hr
    cases hr
    exact ⟨hm, name, hl, hn⟩

private theorem tag_mirrors [Numerals] (meaning : String → Option α) : Mirrors Eq (tag meaning) (tag meaning) := by
  refine string_mirrors.bind ?_
  rintro name _ rfl
  cases meaning name with
  | none => exact .throw _
  | some a => exact .pure rfl

private theorem require_mirrors_self (met : Option α) : Mirrors Eq (require met) (require met) := by
  cases met with
  | none => exact .throw _
  | some a => exact .pure rfl

private theorem tagged_mirrors [Numerals] (name : String) (meaning : String → Option α) (depth : Nat) :
    Mirrors (fun a b ↦ a.2.Finite ∧ a = b) (tagged depth name meaning) (tagged depth name meaning) := by
  refine record_mirrors (fun depth ↦ ?_) (fun depth ↦ ?_) depth
  · have hm : Mirrors (fun a b ↦ (∀ member ∈ a.2, member.2.Finite) ∧ a = b)
        (members (taggedMember depth name meaning) (none, []))
        (members (taggedMember depth name meaning) (none, [])) := by
      refine members_mirrors ?_ ⟨List.forall_mem_nil _, rfl⟩
      rintro ⟨met, others⟩ _ key ⟨hf, rfl⟩
      rw [taggedMember]
      split_ifs
      · have ho : Mirrors Eq (once met (tag meaning)) (once met (tag meaning)) := by
          cases met with
          | some => exact .throw _
          | none => exact (memberValue_mirrors (tag_mirrors meaning)).map fun _ _ h ↦ congrArg some h
        exact ho.map fun a b hab ↦ ⟨hf, congrArg (·, others) hab⟩
      · refine (memberValue_mirrors (value_mirrors depth)).map ?_
        rintro a _ ⟨ha, rfl⟩
        exact ⟨List.forall_mem_append.mpr ⟨hf, List.forall_mem_singleton.mpr ha⟩, rfl⟩
    refine hm.bind ?_
    rintro ⟨met, others⟩ _ ⟨hf, rfl⟩
    exact (require_mirrors_self met).map fun a b hab ↦ ⟨hf, congrArg (·, Fields.named others) hab⟩
  · refine (field_mirrors true (tag_mirrors meaning)).bind ?_
    rintro met _ rfl
    refine (items_mirrors (value_mirrors depth) false).map fun as bs h ↦ ?_
    obtain ⟨hf, rfl⟩ := finite_of_forall₂ h
    exact ⟨hf, rfl⟩

private theorem Json.Reader.Fields.Finite.select {fields : Fields} (h : fields.Finite) {names : List String}
    {values : List Json} (hs : fields.select names = some values) : ∀ value ∈ values, value.Finite := by
  cases fields with
  | listed items =>
    rw [Fields.select] at hs
    split_ifs at hs
    cases hs
    exact h
  | named members =>
    rw [Fields.select] at hs
    induction names generalizing values with
    | nil =>
      cases hs
      exact List.forall_mem_nil _
    | cons name names ih =>
      rw [List.mapM_cons] at hs
      obtain ⟨value, hv, hs⟩ := Option.bind_eq_some_iff.mp hs
      obtain ⟨rest, hr, hs⟩ := Option.bind_eq_some_iff.mp hs
      cases hs
      refine List.forall_mem_cons.mpr ⟨?_, ih hr⟩
      split at hv
      · next found hm =>
        cases hv
        exact h _ (List.mem_of_mem_filter (hm ▸ List.mem_singleton_self _))
      · cases hv

/-- Whether all numbers among properties are finite. -/
def Properties.Finite (properties : Properties) : Prop :=
  ∀ number ∈ properties.numbers, number.isFinite = true

private theorem Properties.finite_ofFields? {kind : ElementKind} {fields : Fields} (h : fields.Finite)
    {properties : Properties} (hp : Properties.ofFields? kind fields = some properties) : properties.Finite := by
  have hn {make : String → Properties} (hm : ∀ name, (make name).numbers = [])
      (hp : Properties.ofFields?.named fields make = some properties) : properties.Finite := by
    obtain ⟨values, hs, hp⟩ := Option.bind_eq_some_iff.mp hp
    split at hp
    · cases hp
      rw [Finite, hm]
      exact List.forall_mem_nil _
    · cases hp
  cases kind with
  | institution =>
    obtain ⟨values, hs, hp⟩ := Option.bind_eq_some_iff.mp hp
    split at hp
    · next name address events =>
      obtain ⟨number, he, hp⟩ := Option.bind_eq_some_iff.mp hp
      cases hp
      have hf := h.select hs events (by simp)
      exact List.forall_mem_singleton.mpr (hf.number he)
    · cases hp
  | _ => exact hn (fun _ ↦ rfl) hp

private theorem readProperties_mirrors [Numerals] (depth : Nat) :
    Mirrors (fun a b ↦ a.Finite ∧ a = b) (readProperties depth) (readProperties depth) := by
  refine (tagged_mirrors "element" ElementKind.ofName? depth).bind ?_
  rintro ⟨kind, fields⟩ _ ⟨hf, rfl⟩
  dsimp only
  cases hp : Properties.ofFields? kind fields with
  | none => exact .throw _
  | some properties => exact .pure ⟨Properties.finite_ofFields? hf hp, rfl⟩

section

variable {agree : γ → γ' → Prop} {geometry : Nat → Reader γ} {geometry' : Nat → Reader γ'}

/-- Features with the same finite properties and geometries that agree. -/
def FeaturesAgree (agree : γ → γ' → Prop) (feature : Properties × γ) (feature' : Properties × γ') : Prop :=
  (feature.1.Finite ∧ feature.1 = feature'.1) ∧ agree feature.2 feature'.2

private theorem readFeature_mirrors [Numerals] (h : ∀ depth, Mirrors agree (geometry depth) (geometry' depth))
    (depth : Nat) :
    Mirrors (FeaturesAgree agree) (readFeature geometry depth) (readFeature geometry' depth) := by
  refine record_mirrors (fun depth ↦ ?_) (fun depth ↦ ?_) depth
  · refine Mirrors.bind (show Mirrors (fun (a : FeatureFields γ) (b : FeatureFields γ') ↦
      Option.Rel (fun a b ↦ a.Finite ∧ a = b) a.properties b.properties ∧ Option.Rel agree a.geometry b.geometry)
      _ _ from members_mirrors (fun fields fields' name hf ↦ ?_) ⟨.none, .none⟩) fun a b hab ↦ ?_
    · split
      · exact (once_mirrors (readProperties_mirrors depth) hf.1).map fun a b hab ↦ ⟨hab, hf.2⟩
      · exact (once_mirrors (h depth) hf.2).map fun a b hab ↦ ⟨hf.1, hab⟩
      · exact (memberValue_mirrors skip_mirrors).bind fun _ _ _ ↦ .pure hf
    · exact (require_mirrors hab.1).bind fun a b hp ↦ (require_mirrors hab.2).map fun _ _ hg ↦ ⟨hp, hg⟩
  · exact (field_mirrors true (readProperties_mirrors depth)).bind fun a b hp ↦
      (field_mirrors false (h depth)).map fun _ _ hg ↦ ⟨hp, hg⟩

private theorem readCollection_mirrors [Numerals] (h : ∀ depth, Mirrors agree (geometry depth) (geometry' depth))
    (depth : Nat) :
    Mirrors (List.Forall₂ (FeaturesAgree agree)) (readCollection geometry depth)
      (readCollection geometry' depth) := by
  have hf := array_mirrors (readFeature_mirrors h)
  refine record_mirrors (fun depth ↦ ?_) (fun depth ↦ field_mirrors true (hf depth)) depth
  refine Mirrors.bind (members_mirrors (fun met met' name hm ↦ ?_) .none) fun a b hab ↦ require_mirrors hab
  split
  · exact once_mirrors (hf _) hm
  · exact (memberValue_mirrors skip_mirrors).bind fun _ _ _ ↦ .pure hm

end

private theorem readOutline_mirrors [Numerals] (depth : Nat) :
    Mirrors (fun a b ↦ a.coordinates.Finite ∧ a = b) (readOutline depth) (readOutline depth) := by
  refine record_mirrors (fun depth ↦ ?_) (fun depth ↦ ?_) depth
  · refine Mirrors.bind (show Mirrors (fun (a b : OutlineFields) ↦ Option.Rel Eq a.type b.type ∧
      Option.Rel (fun a b ↦ a.Finite ∧ a = b) a.coordinates b.coordinates)
      _ _ from members_mirrors (fun fields fields' name hf ↦ ?_) ⟨.none, .none⟩) fun a b hab ↦ ?_
    · split
      · exact (once_mirrors string_mirrors hf.1).map fun a b hab ↦ ⟨hab, hf.2⟩
      · exact (once_mirrors (value_mirrors depth) hf.2).map fun a b hab ↦ ⟨hf.1, hab⟩
      · exact (memberValue_mirrors skip_mirrors).bind fun _ _ _ ↦ .pure hf
    · exact (require_mirrors hab.1).bind fun type _ ht ↦ (require_mirrors hab.2).map fun _ _ hc ↦
        ⟨hc.1, by rw [ht, hc.2]⟩
  · exact (field_mirrors true string_mirrors).bind fun type _ ht ↦
      (field_mirrors false (value_mirrors depth)).map fun _ _ hc ↦ ⟨hc.1, by rw [ht, hc.2]⟩

/-- All numbers that the loose reader gives are finite. -/
theorem finite_of_readOutlines [Numerals] {text : String} {features : List (Properties × Outline)}
    (h : readOutlines text = .ok features) :
    ∀ feature ∈ features, feature.1.Finite ∧ feature.2.coordinates.Finite := by
  obtain ⟨features', _, ha⟩ := readAll_mirrors (readCollection_mirrors readOutline_mirrors deepest) h
  exact forall_mem_of_forall₂ ha fun _ _ h ↦ ⟨h.1.1, h.2.1⟩

private theorem Json.Reader.Fields.select_named {members : List (String × Json)} {name : String} {value : Json} :
    (Fields.named members).select [name] = some [value] ↔ (members.filter (·.1 = name)).map Prod.snd = [value] := by
  rw [Fields.select, List.mapM_cons, List.mapM_nil]
  generalize members.filter (·.1 = name) = found
  rcases found with _ | ⟨_, _ | ⟨_, _⟩⟩ <;> simp

/-- Whether an outline has the type and the coordinates that were found, with finite numbers. -/
structure Outline.Shows (outline : Outline) (found : GeometryType × Fields) : Prop where
  type : GeometryType.ofName? outline.type = some found.1
  coordinates : found.2.select ["coordinates"] = some [outline.coordinates]
  finite : outline.coordinates.Finite

/-- Whether an outline has met what was found among the members of a geometry so far. -/
structure OutlineFields.Meets (fields : OutlineFields) (found : Option GeometryType × List (String × Json)) :
    Prop where
  type : Option.Rel (fun type name ↦ GeometryType.ofName? name = some type) found.1 fields.type
  coordinates : (found.2.filter (·.1 = "coordinates")).map Prod.snd = fields.coordinates.toList
  finite : ∀ value ∈ fields.coordinates, value.Finite

/-- Whether coordinates have been given at most once. -/
def GivenOnce (found : Option GeometryType × List (String × Json)) : Prop :=
  (found.2.filter (·.1 = "coordinates")).length ≤ 1

private theorem givenOnce_of_member [Numerals] {depth : Nat} {found after : Option GeometryType × List (String × Json)}
    {key : String} {text rest : Json.Text}
    (h : (taggedMember depth "type" GeometryType.ofName? found key).run text = .ok after rest)
    (ha : GivenOnce after) : GivenOnce found := by
  obtain ⟨met, others⟩ := found
  rw [taggedMember] at h
  split at h
  · obtain ⟨_, _, _, h⟩ := exists_of_run_bind h
    cases h
    exact ha
  · obtain ⟨value, _, _, h⟩ := exists_of_run_bind h
    cases h
    rw [GivenOnce, List.filter_append, List.length_append] at ha
    exact Nat.le_trans (Nat.le_add_right _ _) ha

/-- A step through the members of an outline. -/
def outlineMember [Numerals] (depth : Nat) (fields : OutlineFields) (name : String) : Reader OutlineFields := do
  match name with
  | "type" => return { fields with type := ← once fields.type string }
  | "coordinates" => return { fields with coordinates := ← once fields.coordinates (value depth) }
  | _ => memberValue skip; return fields

private theorem geometryMember_mirrors [Numerals] (depth : Nat) {found : Option GeometryType × List (String × Json)}
    {fields : OutlineFields} (h : fields.Meets found) (key : String) :
    MirrorsIf GivenOnce (fun a b ↦ b.Meets a) (taggedMember depth "type" GeometryType.ofName? found key)
      (outlineMember depth fields key) := by
  obtain ⟨met, others⟩ := found
  rw [taggedMember]
  unfold outlineMember
  split_ifs with ht
  · subst ht
    exact .of_mirrors ((once_mirrors (tag_mirrors_string GeometryType.ofName?) h.type).map fun a b hab ↦
      ⟨hab, h.coordinates, h.finite⟩)
  · split
    · exact absurd rfl ht
    · -- Something can come of this only if no coordinates have been met before.
      intro text after rest hb hr hg
      obtain ⟨value, middle, hv, hr⟩ := exists_of_run_bind hr
      cases hr
      have hn : fields.coordinates = none := by
        have hc := congrArg List.length h.coordinates
        rw [List.length_map] at hc
        rw [GivenOnce, List.filter_append, List.length_append, hc] at hg
        cases hf : fields.coordinates with
        | none => rfl
        | some => simp [hf] at hg
      obtain ⟨hb, _, hl, hf, rfl⟩ := memberValue_mirrors (value_mirrors depth) hb hv
      refine ⟨hb, { fields with coordinates := some value }, ?_, h.type, ?_, ?_⟩
      · rw [hn]
        exact run_bind (run_bind hl fun found ↦ pure (some found)) _
      · have hc := h.coordinates
        rw [hn] at hc
        simpa [List.filter_append] using hc
      · rintro _ ⟨⟩
        exact hf
    · next hc =>
      refine .of_mirrors ((memberValue_mirrors (value_mirrors_skip depth)).bind fun a _ _ ↦
        .pure ⟨h.type, ?_, h.finite⟩)
      have hc : decide (key = "coordinates") = false := decide_eq_false hc
      rw [List.filter_append, List.filter_cons, hc]
      simpa using h.coordinates

private theorem geometryMembers_mirrors [Numerals] (depth : Nat) :
    MirrorsIf (fun found ↦ ∃ value, found.2.select ["coordinates"] = some [value])
      (fun found outline ↦ outline.Shows found) (tagged.onObject "type" GeometryType.ofName? depth)
      (readOutline.onObject depth) := by
  have hm : MirrorsIf GivenOnce (fun a b ↦ b.Meets a)
      (members (taggedMember depth "type" GeometryType.ofName?) (none, [])) (members (outlineMember depth) {}) := by
    refine members_mirrorsIf (fun _ _ _ _ _ h ha ↦ givenOnce_of_member h ha)
      (fun _ _ key h ↦ geometryMember_mirrors depth h key) ⟨.none, rfl, ?_⟩
    rintro _ ⟨⟩
  refine hm.bind ?_ ?_
  · rintro ⟨met, others⟩ text found rest hr ⟨value, hs⟩
    obtain ⟨type, _, _, hr⟩ := exists_of_run_bind hr
    cases hr
    have hl := congrArg List.length (Fields.select_named.mp hs)
    rw [List.length_map] at hl
    exact hl.le
  · intro found fields h text shown rest hb hr ⟨value, hs⟩
    obtain ⟨type, _, ht, hr⟩ := exists_of_run_bind hr
    cases hr
    obtain ⟨hb, name, hl, hn⟩ := require_mirrors h.type hb ht
    have hc : fields.coordinates = some value := by
      have hc := h.coordinates.symm.trans (Fields.select_named.mp hs)
      cases hf : fields.coordinates with
      | none => simp [hf] at hc
      | some => simpa [hf] using hc
    refine ⟨hb, ⟨name, value⟩, ?_, hn, hs, h.finite value hc⟩
    rw [hc]
    exact run_bind hl fun name ↦ pure (⟨name, value⟩ : Outline)

private theorem field_of_items {item : Reader α} {text rest : Json.Text} {a : α}
    (h : (items item false).run text = .ok [a] rest) :
    ∃ middle, (field false item).run text = .ok a middle ∧ rest = pastBlanks middle := by
  have h : (itemsUpTo item (text.size + 1) false).run text = .ok [a] rest := h
  obtain ⟨more, start, hm, h⟩ := exists_of_run_bind h
  cases more with
  | false => cases h
  | true =>
    obtain ⟨found, middle, hi, h⟩ := exists_of_run_bind h
    obtain ⟨others, _, ho, h⟩ := exists_of_run_bind h
    cases h
    refine ⟨middle, (run_bind hm _).trans hi, ?_⟩
    -- Behind the item, the strict reader has looked for another one and found none.
    generalize text.size = limit at ho
    cases limit with
    | zero => cases ho
    | succ limit =>
      obtain ⟨more, _, hm, ho⟩ := exists_of_run_bind ho
      cases more with
      | false =>
        cases ho
        exact moreItems_false hm
      | true =>
        obtain ⟨_, _, _, ho⟩ := exists_of_run_bind ho
        obtain ⟨_, _, _, ho⟩ := exists_of_run_bind ho
        cases ho

private theorem geometryItems_mirrors [Numerals] (depth : Nat) :
    MirrorsIf (fun found ↦ ∃ value, found.2.select ["coordinates"] = some [value])
      (fun found outline ↦ outline.Shows found)
      (tagged.onArray GeometryType.ofName? depth >>= fun value ↦ close ']' >>= fun _ ↦ pure value)
      (readOutline.onArray depth >>= fun value ↦ close ']' >>= fun _ ↦ pure value) := by
  intro text found rest hb hr ⟨value, hs⟩
  obtain ⟨_, behind, hf, hr⟩ := exists_of_run_bind hr
  obtain ⟨_, _, hc, hr⟩ := exists_of_run_bind hr
  cases hr
  obtain ⟨type, middle, ht, hf⟩ := exists_of_run_bind hf
  obtain ⟨values, _, hi, hf⟩ := exists_of_run_bind hf
  cases hf
  have hv : values = [value] := by
    rw [Fields.select] at hs
    split_ifs at hs
    exact Option.some.inj hs
  subst hv
  obtain ⟨last, hfield, rfl⟩ := field_of_items hi
  obtain ⟨hb, name, hl, hn⟩ := field_mirrors true (tag_mirrors_string GeometryType.ofName?) hb ht
  obtain ⟨hb, _, _, hfinite, rfl⟩ := field_mirrors false (value_mirrors depth) hb hfield
  have hc : (close ']').run last = .ok () rest := by rwa [close, run_peek_bind, pastBlanks_pastBlanks] at hc
  have ho : (readOutline.onArray depth).run text = .ok ⟨name, value⟩ last :=
    (run_bind hl _).trans (run_bind hfield _)
  refine ⟨(close_mirrors ']' hb hc).1, ⟨name, value⟩, ?_, hn, hs, hfinite⟩
  rw [run_bind ho, run_bind hc]
  rfl

/-- Whether an outline is that of a geometry. -/
structure Outline.Draws (outline : Outline) (geometry : Geometry) : Prop where
  type : outline.type = geometry.typeName
  coordinates : Geometry.ofFields? geometry.type (.listed [outline.coordinates]) = some geometry

private theorem GeometryType.eq_typeName {name : String} {geometry : Geometry}
    (h : GeometryType.ofName? name = some geometry.type) : name = geometry.typeName := by
  unfold ofName? at h
  split at h <;> cases geometry <;> first | rfl | cases h

private theorem Geometry.ofFields?_eq_some {type : GeometryType} {fields : Fields} {geometry : Geometry}
    (h : Geometry.ofFields? type fields = some geometry) :
    geometry.type = type ∧ ∃ value, fields.select ["coordinates"] = some [value] := by
  obtain ⟨values, hs, h⟩ := Option.bind_eq_some_iff.mp h
  split at h
  · next value =>
    refine ⟨?_, value, hs⟩
    cases type <;> obtain ⟨_, _, h⟩ := Option.bind_eq_some_iff.mp h <;> cases h <;> rfl
  · cases h

private theorem readGeometry_mirrors [Numerals] (depth : Nat) :
    Mirrors (fun geometry outline ↦ outline.Draws geometry ∧ outline.coordinates.Finite) (readGeometry depth)
      (readOutline depth) := by
  intro text geometry rest hb hr
  obtain ⟨⟨type, fields⟩, middle, ht, hr⟩ := exists_of_run_bind hr
  dsimp only at hr
  cases hg : Geometry.ofFields? type fields with
  | none =>
    rw [hg] at hr
    cases hr
  | some found =>
    rw [hg] at hr
    cases hr
    obtain ⟨rfl, hs⟩ := Geometry.ofFields?_eq_some hg
    obtain ⟨hb, outline, hl, hs⟩ :=
      record_mirrorsIf geometryMembers_mirrors geometryItems_mirrors depth hb ht hs
    refine ⟨hb, outline, hl, ⟨GeometryType.eq_typeName hs.type, ?_⟩, hs.finite⟩
    rw [← hg, Geometry.ofFields?, Geometry.ofFields?, hs.coordinates]
    rfl

/--
Where the strict reader finds a document, the loose reader finds the same features with outlines of their geometries,
and all of their numbers are finite.
-/
theorem readOutlines_of_read [Numerals] {text : String} {document : Document} (h : Document.read text = .ok document) :
    ∃ found, readOutlines text = .ok found ∧ List.Forall₂ (fun feature found ↦
      (feature.properties.Finite ∧ feature.properties = found.1) ∧ found.2.Draws feature.geometry ∧
        found.2.coordinates.Finite) document.features found := by
  obtain ⟨features, hr, h⟩ := exists_of_bind_eq_ok h
  cases h
  obtain ⟨found, hl, ha⟩ := readAll_mirrors (readCollection_mirrors readGeometry_mirrors deepest) hr
  exact ⟨found, hl, List.forall₂_map_left_iff.mpr ha⟩

end Cityscape
