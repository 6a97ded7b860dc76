import BeanSynthesis.Proofs.Exchange.Treatment

/-!
# Validation constraints in portable models

The parameters of a constraint are texts, truth values, and numbers that come from 32-bit literals
or from the bounds on occurrences, so the format can hold every constraint that a schema gives.
-/

namespace BeanSynthesis

variable {settings : Settings} {m : CodeModel} {c after : BeanClass} {tally : Tally}

private theorem AnnotationValue.exchangeable_of_fitsInt32 {n : Int} (h : fitsInt32 n) :
    (AnnotationValue.int n).Exchangeable := by
  simp only [fitsInt32, Bool.and_eq_true, decide_eq_true_eq] at h
  constructor <;> omega

namespace Constraints

/-- The format can hold the constraint that is found, if it is one. -/
def Finding.Exchangeable : Finding → Prop
  | .constraint mark => mark.Exchangeable
  | .sentinel _ _ => True

variable {dialect : ValidationDialect}

private theorem applyFindings_exchangeable {f g : Field} {n : Nat} {findings : List Finding}
    (hfindings : ∀ finding ∈ findings, finding.Exchangeable) (hf : f.Exchangeable)
    (h : (applyFindings f findings).outcome = .ok (g, n)) : g.Exchangeable := by
  obtain ⟨added, rfl, hmarks⟩ := applyFindings_annotations h
  have hadded : ∀ mark ∈ added, mark.Exchangeable := fun mark hmark =>
    hfindings _ (hmarks mark hmark)
  exact ⟨hf.type, List.forall_mem_append.2 ⟨hf.annotations, hadded⟩⟩

private theorem mem_updateField {name : String} {f g : Field} {fields : List Field}
    (h : g ∈ updateField name f fields) : g = f ∨ g ∈ fields := by
  induction fields with
  | nil => cases h
  | cons first rest ih =>
    unfold updateField at h
    split at h
    · exact (List.mem_cons.1 h).imp_right (List.mem_cons_of_mem _)
    · rcases List.mem_cons.1 h with rfl | h
      · exact .inr List.mem_cons_self
      · exact (ih h).imp_right (List.mem_cons_of_mem _)

variable (hsettings : settings.WellNamed)

include hsettings

private theorem exchangeable_withParams {name : String} (hname : name ∈ simpleNames)
    {params : List (String × AnnotationValue)} (hparams : ∀ param ∈ params, param.2.Exchangeable) :
    (withParams settings.validation name params).Exchangeable :=
  ⟨ClassRef.wellFormed_ofName.2 (hsettings.constraints name hname), hparams⟩

private theorem lengthFindings_exchangeable (t : TypeExpr) (s : SimpleType) :
    ∀ finding ∈ lengthFindings settings.validation t s, finding.Exchangeable := by
  have hbound : ∀ facet name : String, ∀ param ∈
      (s.intFacet? facet).toList.map fun n => (name, AnnotationValue.int n),
      param.2.Exchangeable := by
    intro facet name param hparam
    obtain ⟨n, hn, rfl⟩ := List.mem_map.1 hparam
    exact AnnotationValue.exchangeable_of_fitsInt32
      (SimpleType.intFacet?_fits (Option.mem_toList.1 hn))
  unfold lengthFindings
  dsimp only
  split
  · exact List.forall_mem_singleton.2 (exchangeable_withParams hsettings (by decide)
      (List.forall_mem_append.2 ⟨hbound _ _, hbound _ _⟩))
  · exact List.forall_mem_nil _

private theorem patternFindings_exchangeable (s : SimpleType) :
    ∀ finding ∈ patternFindings settings.validation s, finding.Exchangeable := by
  unfold patternFindings
  split
  · split
    · exact List.forall_mem_nil _
    · exact List.forall_mem_singleton.2 (exchangeable_withParams hsettings (by decide)
        (List.forall_mem_singleton.2 trivial))
  · exact List.forall_mem_nil _

private theorem boundFindings_exchangeable (s : SimpleType) (facet : String) {constraint : String}
    (hconstraint : constraint ∈ simpleNames) (exclusive : Bool) :
    ∀ finding ∈ boundFindings settings.validation dialect s facet constraint exclusive,
      finding.Exchangeable := by
  unfold boundFindings
  split
  · exact List.forall_mem_nil _
  · split
    · exact List.forall_mem_singleton.2 trivial
    · refine List.forall_mem_singleton.2 (exchangeable_withParams hsettings hconstraint
        (List.forall_mem_cons.2 ⟨trivial, ?_⟩))
      split
      · exact List.forall_mem_singleton.2 trivial
      · exact List.forall_mem_nil _

private theorem digitFindings_exchangeable (s : SimpleType) :
    ∀ finding ∈ digitFindings settings.validation s, finding.Exchangeable := by
  unfold digitFindings
  split
  case h_1 => exact List.forall_mem_nil _
  case h_2 total htotal =>
    have htotal := AnnotationValue.exchangeable_of_fitsInt32 (SimpleType.intFacet?_fits htotal)
    split
    case h_1 fraction hfraction =>
      obtain ⟨hread, hfits⟩ := Option.filter_eq_some_iff.1 hfraction
      refine List.forall_mem_singleton.2 (exchangeable_withParams hsettings (by decide) ?_)
      simp only [List.forall_mem_cons]
      exact ⟨AnnotationValue.exchangeable_of_fitsInt32 hfits,
        AnnotationValue.exchangeable_of_fitsInt32 (SimpleType.intFacet?_fits hread),
        List.forall_mem_nil _⟩
    case h_2 => exact List.forall_mem_singleton.2 (exchangeable_withParams hsettings (by decide)
        (List.forall_mem_singleton.2 htotal))

private theorem facetFindings_exchangeable (t : TypeExpr) (s : SimpleType) :
    ∀ finding ∈ facetFindings settings.validation dialect m t s, finding.Exchangeable := by
  have hrange : ∀ finding ∈ rangeFindings settings.validation dialect s, finding.Exchangeable := by
    simp only [rangeFindings, List.forall_mem_append]
    refine ⟨⟨⟨?_, ?_⟩, ?_⟩, ?_⟩
    all_goals exact boundFindings_exchangeable hsettings s _ (by decide) _
  simp only [facetFindings, List.forall_mem_append]
  refine ⟨⟨⟨lengthFindings_exchangeable hsettings t s,
    patternFindings_exchangeable hsettings s⟩, ?_⟩,
    digitFindings_exchangeable hsettings s⟩
  split
  · exact hrange
  · exact List.forall_mem_nil _

private theorem requiredFindings_exchangeable (required : Bool) :
    ∀ finding ∈ requiredFindings settings.validation required, finding.Exchangeable := by
  unfold requiredFindings
  split
  · exact List.forall_mem_singleton.2 <|
      Annotation.exchangeable_ofName.2 (hsettings.constraints _ (by decide))
  · exact List.forall_mem_nil _

/-- The bounds on occurrences have 32 bits. -/
theorem occurrenceFindings_exchangeable {minOccurs : Nat} (hmin : minOccurs ≤ 4294967295)
    {maxOccurs : MaxOccurs} (hmax : maxOccurs.Exchangeable) :
    ∀ finding ∈ occurrenceFindings settings.validation minOccurs maxOccurs,
      finding.Exchangeable := by
  have hint : ∀ n : Nat, n ≤ 4294967295 → (AnnotationValue.int n).Exchangeable := fun n hn => by
    constructor <;> omega
  unfold occurrenceFindings
  split
  · exact List.forall_mem_nil _
  · split
    · refine List.forall_mem_singleton.2 (exchangeable_withParams hsettings (by decide) ?_)
      simp only [List.forall_mem_cons]
      exact ⟨hint _ hmin, hint _ hmax, List.forall_mem_nil _⟩
    · exact List.forall_mem_nil _
  · split
    · exact List.forall_mem_singleton.2 (exchangeable_withParams hsettings (by decide)
        (List.forall_mem_singleton.2 (hint _ hmin)))
    · exact List.forall_mem_nil _

private theorem findings_exchangeable (t : TypeExpr) {kind : PropertyKind}
    (hkind : kind.Exchangeable) :
    ∀ finding ∈ findings settings.validation dialect m t kind, finding.Exchangeable := by
  have hfacets : ∀ s : Option SimpleType, ∀ finding ∈
      s.toList.flatMap (facetFindings settings.validation dialect m t), finding.Exchangeable := by
    intro s finding hfinding
    obtain ⟨s, -, hs⟩ := List.mem_flatMap.1 hfinding
    exact facetFindings_exchangeable hsettings t s finding hs
  unfold findings
  dsimp only
  split
  case h_1 minOccurs maxOccurs required term =>
    simp only [List.forall_mem_append]
    refine ⟨⟨⟨requiredFindings_exchangeable hsettings _,
      occurrenceFindings_exchangeable hsettings hkind.1 hkind.2⟩, ?_⟩, ?_⟩
    · split
      · exact List.forall_mem_singleton.2 <| Annotation.exchangeable_ofName.2 hsettings.valid
      · exact List.forall_mem_nil _
    · split
      · exact hfacets _
      · exact List.forall_mem_nil _
      · exact List.forall_mem_nil _
  case h_2 =>
    exact List.forall_mem_append.2 ⟨requiredFindings_exchangeable hsettings _, hfacets _⟩
  case h_3 => exact hfacets _
  case h_4 => exact List.forall_mem_nil _

private theorem applyProperty_portable {p : Property} (hp : p.Exchangeable) (hc : c.Portable)
    (h : (applyProperty settings.validation dialect m c p).outcome = .ok (after, tally)) :
    after.Portable := by
  obtain rfl | ⟨f, g, added, hfield, hadd, rfl⟩ := applyProperty_cases h
  · exact hc
  · have hg := applyFindings_exchangeable (findings_exchangeable hsettings f.type hp)
      (hc.fields f (List.mem_of_find?_eq_some hfield)) hadd
    have hfields : ∀ x ∈ updateField p.name g c.fields, x.Exchangeable := fun x hx => by
      rcases mem_updateField hx with rfl | hx
      · exact hg
      · exact hc.fields x hx
    exact { hc with fields := hfields }

/-- With constraints a class can still be exchanged. -/
theorem onClass_portable (hc : c.Portable)
    (h : (onClass settings dialect m c).outcome = .ok (after, tally)) : after.Portable := by
  obtain ⟨counted, happly⟩ := onClass_applies h
  refine applyProperties_keeps (P := BeanClass.Portable) (fun p hp d after tally hd hone => ?_) hc
    happly
  exact applyProperty_portable hsettings (hc.properties p (List.mem_of_mem_filter hp)) hd hone

end Constraints

end BeanSynthesis
