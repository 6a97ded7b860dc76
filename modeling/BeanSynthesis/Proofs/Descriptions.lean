import Mathlib.Logic.Equiv.List
import BeanSynthesis.Proofs.Execution.Added
import BeanSynthesis.Proofs.Growth.Passes

/-!
# What a description lists

A generator of descriptions takes in one pair of a name and a value after the other, and the text
that it gives can be continued. Given that, the description of an object lists the fields of its
whole line: those of the class that starts the hierarchy first, and those of its own class last.
Classes without fields of their own have no description, and what they inherit lists all there is.
-/

namespace BeanSynthesis

/-- What states of generators, and texts, stand for: names and values in the order in which they
have been taken in. -/
structure Listing where
  holds : Nat → List (String × Value) → Prop
  lists : String → List (String × Value) → Prop

/-- The type of texts. -/
def textType : TypeExpr := .ofName "java.lang.String"

/-- What is relied on in descriptions. -/
structure Program.DescribesLawfully (p : Program) (runtime : RuntimeClasses) (h : Heap)
    (r : Listing) : Prop where
  /-- A generator that starts from an object has taken in nothing. -/
  start : ∀ x className slots type, h.object? x = some (className, slots) →
    ∃ g, r.holds g [] ∧ ∀ calls,
      p.construct calls (.ofName runtime.toStringGenerator) [⟨x, type⟩] h =
        some (⟨.token g, some (.ofName runtime.toStringGenerator)⟩, h)
  /-- A generator that starts from a text continues it. -/
  derived : ∀ s pairs, r.lists s pairs → ∃ g, r.holds g pairs ∧
    p.outside.static runtime.toStringGenerator "getDerived" [⟨.text s, some textType⟩] h =
      some (.token g, h)
  append : ∀ g pairs name v type, r.holds g pairs → ∃ g', r.holds g' (pairs ++ [(name, v)]) ∧
    p.outside.invoke (.token g) "append" [⟨.text name, some textType⟩, ⟨v, type⟩] h =
      some (.token g', h)
  getToString : ∀ g pairs, r.holds g pairs → ∃ s, r.lists s pairs ∧
    p.outside.invoke (.token g) "getToString" [] h = some (.text s, h)

/-- The call `x.toString()` ends, gives this text, and has no effects. -/
def Program.ToStringGives (p : Program) (h : Heap) (x : Value) (s : String) : Prop :=
  p.Yields (fun calls => p.send calls x "toString" [] [] h) (⟨.text s, some textType⟩, h)

namespace Description

/-- The instance fields that a class declares, in their order, with their values in an object. -/
def ownPairs (h : Heap) (x : Value) (c : BeanClass) : List (String × Value) :=
  (c.fields.filter (!·.isStatic)).map fun f => (f.name, h.valueAt x (c.name, f.name))

/-- The fields of a line, from its last class to its first. -/
def linePairs (h : Heap) (x : Value) (line : List BeanClass) : List (String × Value) :=
  line.reverse.flatMap (ownPairs h x)

@[simp] private theorem linePairs_nil (h : Heap) (x : Value) : linePairs h x [] = [] := rfl

@[simp] private theorem linePairs_cons (h : Heap) (x : Value) (c : BeanClass)
    (line : List BeanClass) :
    linePairs h x (c :: line) = linePairs h x line ++ ownPairs h x c := by
  simp [linePairs]

/-- Whether a class with these instance fields needs no description of its own. -/
def inherits (m : CodeModel) (c : BeanClass) (fields : List InstanceField) : Bool :=
  m.lineageOf c == .derived && fields.isEmpty

/-- The class has the method `toString` that the pass makes, or needs none and has none. -/
def HasDescription (settings : Settings) (m : CodeModel) (c : BeanClass) : Prop :=
  ∃ fields, c.instanceFields.outcome = .ok fields ∧ c.method? "toString" [] =
    if inherits m c fields then none
    else some ((toStringMethod settings.runtime fields (m.lineageOf c)).stamp settings option)

variable {p : Program} {settings : Settings} {runtime : RuntimeClasses} {h : Heap} {r : Listing}
  {c d parent : BeanClass} {x : Value} {slots : Slots} {fields : List InstanceField}
  {frame : Frame} {e : Expr} {pairs : List (String × Value)}

private theorem ownPairs_eq (hfields : c.instanceFields.outcome = .ok fields) :
    fields.map (fun f => (f.name, h.valueAt x (c.name, f.name))) = ownPairs h x c := by
  have hpairs := congrArg (List.map fun q => (q.1, h.valueAt x (c.name, q.1)))
    (BeanClass.instanceFields_map hfields)
  simpa [ownPairs, Function.comp_def] using hpairs

/-! ## Generators -/

/-- The expression gives a generator that has taken in these pairs. -/
def Generates (p : Program) (h : Heap) (r : Listing) (frame : Frame) (e : Expr)
    (pairs : List (String × Value)) : Prop :=
  ∃ g type, r.holds g pairs ∧ p.Evals frame h e ⟨.token g, type⟩ h

namespace Generates

variable (hp : p.DescribesLawfully runtime h r)
include hp

private theorem append {name : String} {value : Expr} {t : Typed}
    (he : Generates p h r frame e pairs)
    (hvalue : p.Evals frame h value t h) :
    Generates p h r frame (e.invoke "append" [.strLit name, value])
      (pairs ++ [(name, t.value)]) := by
  obtain ⟨g, type, hholds, he⟩ := he
  obtain ⟨g', hholds', happend⟩ := hp.append g pairs name t.value t.type hholds
  have hname : p.Evals frame h (.strLit name) ⟨.text name, some textType⟩ h := .of_eq fun _ => rfl
  refine ⟨g', none, hholds', he.invoke (.two hname hvalue) (.of_eq fun calls => ?_)⟩
  rw [Program.invoke_token calls g type (by decide), happend]
  rfl

/-- All instance fields of a class are taken in, one after the other. -/
theorem foldl (hm : p.model.WellFormed) (hc : c ∈ p.model.classes)
    (hfields : c.instanceFields.outcome = .ok fields) (hx : h.object? x = some (d.name, slots))
    (he : Generates p h r ⟨x, c, []⟩ e pairs) :
    Generates p h r ⟨x, c, []⟩ (fields.foldl
      (fun generator f => generator.invoke "append" [.strLit f.name, .ident f.name]) e)
      (pairs ++ ownPairs h x c) := by
  have hall : ∀ f ∈ fields, ∃ type,
      p.Evals ⟨x, c, []⟩ h (.ident f.name) ⟨h.valueAt x (c.name, f.name), type⟩ h := by
    intro f hf
    obtain ⟨g, hg⟩ := BeanClass.instanceField?_of_mem hfields hf
    exact ⟨_, Program.evals_field hm hc rfl hg hx⟩
  rw [← ownPairs_eq hfields]
  clear hfields
  induction fields generalizing e pairs with
  | nil => simpa using he
  | cons f rest ih =>
    rw [List.forall_mem_cons] at hall
    obtain ⟨type, hvalue⟩ := hall.1
    simpa using ih (he.append hp hvalue) hall.2

private theorem getToString (he : Generates p h r frame e pairs) : ∃ s, r.lists s pairs ∧
    p.Evals frame h (e.invoke "getToString" []) ⟨.text s, none⟩ h := by
  obtain ⟨g, type, hholds, he⟩ := he
  obtain ⟨s, hlists, hgives⟩ := hp.getToString g pairs hholds
  refine ⟨s, hlists, he.invoke .nil (.of_eq fun calls => ?_)⟩
  rw [Program.invoke_token calls g type (by decide), hgives]
  rfl

end Generates

/-! ## The method `toString` -/

/-- A class without the method answers as its superclass does. -/
theorem dispatch_inherited (hm : p.model.WellFormed) (hc : c ∈ p.model.classes)
    (hparent : p.model.parentOf c = .generated parent) (hnone : c.method? "toString" [] = none)
    (calls : Calls) :
    p.dispatch calls (p.model.line c) x "toString" [] [] h =
      p.dispatch calls (p.model.line parent) x "toString" [] [] h := by
  have hmethod : methodIn? (p.model.line c) "toString" [] =
      methodIn? (p.model.line parent) "toString" [] := by
    simp [methodIn?, hm.line_of_generated hc hparent, hnone]
  simp only [Program.dispatch, hmethod]

/-- What the method of a class lists, if it starts from a generator that has taken in these
pairs. -/
theorem yields_of_start (hm : p.model.WellFormed)
    (hp : p.DescribesLawfully settings.runtime h r) (hc : c ∈ p.model.classes)
    (hfields : c.instanceFields.outcome = .ok fields) (hx : h.object? x = some (d.name, slots))
    (hn : c.method? "toString" [] =
      some ((toStringMethod settings.runtime fields (p.model.lineageOf c)).stamp settings option))
    (hstart : Generates p h r ⟨x, c, []⟩ (start settings.runtime (p.model.lineageOf c)) pairs) :
    ∃ s, r.lists s (pairs ++ ownPairs h x c) ∧
      p.Yields (fun calls => p.dispatch calls (p.model.line c) x "toString" [] [] h)
        (⟨.text s, some textType⟩, h) := by
  obtain ⟨s, hlists, hgives⟩ := (hstart.foldl hp hm hc hfields hx).getToString hp
  have hbind : bindParams ((toStringMethod settings.runtime fields
      (p.model.lineageOf c)).stamp settings option).params [] = some [] := rfl
  have hruns : p.Runs x c [] h
      [.give (description settings.runtime fields (p.model.lineageOf c))] (.done (.text s)) h :=
    .cons_done (.give hgives)
  exact ⟨s, hlists, .dispatch (Program.methodIn?_line p.model hn) rfl hbind hruns⟩

/-- What `toString` lists, from one class of the line of an object upward. -/
theorem yields_toString (hm : p.model.WellFormed)
    (hp : p.DescribesLawfully settings.runtime h r)
    (hc : p.model.Rooted (HasDescription settings p.model) c)
    (hx : h.object? x = some (d.name, slots)) :
    ∃ s, r.lists s (linePairs h x (p.model.line c)) ∧
      p.Yields (fun calls => p.dispatch calls (p.model.line c) x "toString" [] [] h)
        (⟨.text s, some textType⟩, h) := by
  induction hc with
  | @root c hc hdescription hroot =>
    obtain ⟨fields, hfields, hn⟩ := hdescription
    have hlineage : p.model.lineageOf c = .root := by simp [CodeModel.lineageOf, hroot]
    have hline : p.model.line c = [c] := CodeModel.line_of_not_generated (by simp [hroot])
    rw [if_neg (by simp [inherits, hlineage])] at hn
    obtain ⟨g, hholds, hnew⟩ := hp.start x d.name slots (some c.asType) hx
    have hstart : Generates p h r ⟨x, c, []⟩ (start settings.runtime (p.model.lineageOf c)) [] := by
      rw [hlineage]
      exact ⟨g, _, hholds, .newObject (.one .this) (.of_eq hnew)⟩
    obtain ⟨s, hlists, hyields⟩ := yields_of_start hm hp hc hfields hx hn hstart
    exact ⟨s, by simpa [hline] using hlists, hyields⟩
  | @derived c parent hc hdescription hparent hrest ih =>
    obtain ⟨fields, hfields, hn⟩ := hdescription
    have hlineage : p.model.lineageOf c = .derived := by simp [CodeModel.lineageOf, hparent]
    have hline := hm.line_of_generated hc hparent
    obtain ⟨s, hlists, hyields⟩ := ih
    rw [hline, linePairs_cons]
    by_cases hinherits : inherits p.model c fields
    · rw [if_pos hinherits] at hn
      have hnone : ownPairs h x c = [] := by
        have hempty : fields = [] := by simpa using (Bool.and_eq_true_iff.mp hinherits).2
        rw [← ownPairs_eq hfields, hempty]
        rfl
      refine ⟨s, by rwa [hnone, List.append_nil], ?_⟩
      rw [← hline]
      simpa only [dispatch_inherited hm hc hparent hn] using hyields
    · rw [if_neg hinherits] at hn
      obtain ⟨g, hholds, hcontinues⟩ := hp.derived s _ hlists
      have hstart : Generates p h r ⟨x, c, []⟩ (start settings.runtime (p.model.lineageOf c))
          (linePairs h x (p.model.line parent)) := by
        rw [hlineage]
        exact ⟨g, none, hholds, .static (.one (.super_without_args hparent hyields)) hcontinues⟩
      rw [← hline]
      exact yields_of_start hm hp hc hfields hx hn hstart

/-! ## The pass -/

variable {m n : CodeModel} {options : List String} {context : PassContext} {report : PassReport}

/-- The pairs of a class stay the same when it grows. -/
theorem ownPairs_of_grows (hcd : c.Grows settings options d) :
    ownPairs h x d = ownPairs h x c := by
  have hpairs := congrArg (List.map fun name => (name, h.valueAt x (c.name, name)))
    hcd.instanceNames_eq
  rw [List.map_map, List.map_map] at hpairs
  rw [ownPairs, hcd.name]
  exact hpairs

private theorem linePairs_of_grows {before after : List BeanClass}
    (hgrows : List.Forall₂ (BeanClass.Grows settings options) before after) :
    linePairs h x after = linePairs h x before := by
  induction hgrows with
  | nil => rfl
  | cons hcd _ ih => rw [linePairs_cons, linePairs_cons, ih, ownPairs_of_grows hcd]

private theorem run_grows (context : PassContext) (m : CodeModel) :
    m.Grows context.settings [option] (run context m).model :=
  .withClasses (forall₂_sweep_exceptEnums (fun _ _ _ => onClass_grows) _)

/-- A class for which the pass is responsible: no enumeration, and without the method before. -/
structure Eligible (c : BeanClass) : Prop where
  plain : ¬c.isEnum
  noToString : c.hasMethod "toString" [] = false

/-- What the pass does to a class: it adds the method, unless the class needs none. -/
theorem method?_of_onClass {tally : Tally} (h : (onClass settings m c).outcome = .ok (d, tally))
    (hfields : c.instanceFields.outcome = .ok fields)
    (hnone : c.hasMethod "toString" [] = false) :
    d.method? "toString" [] = if inherits m c fields then none else
      some ((toStringMethod settings.runtime fields (m.lineageOf c)).stamp settings option) := by
  obtain ⟨fields', hfields', h⟩ := Step.bind_eq_ok.mp h
  obtain rfl : fields' = fields := Except.ok.inj (hfields'.symm.trans hfields)
  change (if inherits m c fields' then _ else _ : Step Changed).outcome = _ at h
  split at h
  case isTrue hskipped =>
    obtain rfl : c = d := congrArg Prod.fst (Except.ok.inj h)
    rw [if_pos hskipped]
    exact BeanClass.method?_eq_none_iff.mpr hnone
  case isFalse hadded =>
    obtain ⟨changed, hadd, h⟩ := Step.bind_eq_ok.mp h
    rw [if_neg hadded]
    have hreceives : c.Receives settings option
        [(toStringMethod settings.runtime fields' (m.lineageOf c)).stamp settings option] d :=
      ⟨changed.1, _, changed.2, Step.bind_eq_ok.mpr ⟨changed, hadd, rfl⟩,
        congrArg Prod.fst (Except.ok.inj h).symm⟩
    exact hreceives.method? (List.pairwise_singleton _ _) List.mem_cons_self hnone

private theorem hasDescription_of_run (hm : m.WellFormed)
    (hrun : (run context m).outcome = .ok report)
    (hc : c ∈ m.classes) (hd : d ∈ (run context m).model.classes)
    (hcd : c.Grows context.settings [option] d) (heligible : Eligible c) :
    HasDescription context.settings (run context m).model d := by
  rcases CodeModel.treated_of_run hm hrun (fun c d tally hplain htreated =>
    (onClass_grows hplain htreated).name) hc hd hcd.name with ⟨-, henum⟩ | ⟨-, tally, htreated⟩
  · exact absurd henum heligible.plain
  · obtain ⟨fields, hfields, -⟩ := Step.bind_eq_ok.mp htreated
    refine ⟨fields, hcd.instanceFields_eq.trans hfields, ?_⟩
    have hlineage := (run_grows context m).lineageOf_eq hcd
    have hinherits : inherits (run context m).model d fields = inherits m c fields := by
      rw [inherits, hlineage, inherits]
    rw [method?_of_onClass htreated hfields heligible.noToString, hinherits, hlineage]

/-- After the pass, the description of an object lists the instance fields of all classes of its
line, those of the class that starts the hierarchy first, each class once, and the fields of each
class in the order in which it declares them. -/
theorem lists_line_of_run {outside : Outside} (hvalid : m.validate = .ok ())
    (hrun : (run context m).outcome = .ok report)
    (hp : Program.DescribesLawfully ⟨(run context m).model, outside⟩ context.settings.runtime h r)
    (hc : m.Rooted Eligible c) (hx : h.object? x = some (c.name, slots)) :
    (m.line c).Nodup ∧
      (∀ e ∈ m.line c, ∃ fields, e.instanceFields.outcome = .ok fields ∧
        ownPairs h x e = fields.map fun f => (f.name, h.valueAt x (e.name, f.name))) ∧
      ∃ s, Program.ToStringGives ⟨(run context m).model, outside⟩ h x s ∧
        r.lists s ((m.line c).reverse.flatMap (ownPairs h x)) := by
  have hm := CodeModel.wellFormed_of_validate hvalid
  have hgrows := run_grows context m
  have hn := hgrows.wellFormed hm
  obtain ⟨d, hd, hcd⟩ := hgrows.exists_of_mem_before hc.mem
  have hdescribed : ∀ c d, c ∈ m.classes → d ∈ (run context m).model.classes →
      c.Grows context.settings [option] d → Eligible c →
      HasDescription context.settings (run context m).model d :=
    fun c d hc hd hcd => hasDescription_of_run hm hrun hc hd hcd
  refine ⟨hc.nodup_line hm, fun e he => ?_, ?_⟩
  · have hrooted := hc.of_mem_line hm he
    obtain ⟨e', he', hee'⟩ := hgrows.exists_of_mem_before hrooted.mem
    obtain ⟨fields, hfields, -⟩ := hdescribed e e' hrooted.mem he' hee' hrooted.holds
    rw [hee'.instanceFields_eq] at hfields
    exact ⟨fields, hfields, (ownPairs_eq hfields).symm⟩
  · obtain ⟨s, hlists, hyields⟩ := yields_toString (c := d) hn hp
      (hgrows.rooted hdescribed hc hd hcd) (hcd.name ▸ hx)
    rw [linePairs_of_grows (hgrows.line_rel hm hc hd hcd)] at hlists
    refine ⟨s, ?_, hlists⟩
    unfold Program.ToStringGives
    simpa only [Program.send_of_object _ hx, ← hcd.name, hn.lineNamed_name hd] using hyields

/-! ## Generators that write texts -/

/-- The text of a value. -/
def valueText : Value → String
  | .null => "null"
  | .bool b => toString b
  | .int i => toString i
  | .text s => s
  | .classOf name => name
  | .ref a => "@" ++ toString a
  | .token _ => "?"

/-- A text with pairs at its end. -/
def withPairs (s : String) (pairs : List (String × Value)) : String :=
  pairs.foldl (fun s (name, v) => s ++ "; " ++ name ++ "=" ++ valueText v) s

/-- The state of a generator that has written a text. -/
def stateOf (s : String) : Nat := Encodable.encode (s.toList.map Char.toNat)

/-- The text that a generator has written. -/
def writtenAt (g : Nat) : String :=
  match (Encodable.decode g : Option (List Nat)) with
  | some codes => String.ofList (codes.map Char.ofNat)
  | none => ""

@[simp] private theorem writtenAt_stateOf (s : String) : writtenAt (stateOf s) = s := by
  simp [writtenAt, stateOf, Function.comp_def]

/-- Generators that write the name of the class and then the pairs. -/
def byText : Outside where
  static _ method args h :=
    match method, args with
    | "getDerived", [⟨.text s, _⟩] => some (.token (stateOf s), h)
    | _, _ => none
  constant _ _ := none
  construct _ args h :=
    match args with
    | [t] => (h.object? t.value).map fun (name, _) => (.token (stateOf name), h)
    | _ => none
  invoke v method args h :=
    match v, method, args with
    | .token g, "append", [⟨.text name, _⟩, t] =>
      some (.token (stateOf (withPairs (writtenAt g) [(name, t.value)])), h)
    | .token g, "getToString", [] => some (.text (writtenAt g), h)
    | _, _, _ => none
  signatures _ _ := []
  classOf _ := "java.lang.Object"
  belongs _ _ := false

/-- What the written texts list. -/
def textListing : Listing where
  holds g pairs := ∃ name, g = stateOf (withPairs name pairs)
  lists s pairs := ∃ name, s = withPairs name pairs

private theorem byText_describes (hnone : m.class? runtime.toStringGenerator = none)
    (hne : runtime.toStringGenerator ≠ "java.util.HashMap") :
    Program.DescribesLawfully ⟨m, byText⟩ runtime h textListing where
  start x className slots type hx := by
    refine ⟨stateOf className, ⟨className, rfl⟩, fun calls => ?_⟩
    rw [TypeExpr.ofName,
      Program.construct_of_outside calls hne (by simp [CodeModel.lineNamed, hnone])]
    simp [byText, hx]
  derived := by
    rintro s pairs ⟨name, rfl⟩
    exact ⟨_, ⟨name, rfl⟩, rfl⟩
  append := by
    rintro g pairs field v type ⟨name, rfl⟩
    refine ⟨_, ⟨name, ?_⟩, rfl⟩
    simp [withPairs]
  getToString := by
    rintro g pairs ⟨name, rfl⟩
    exact ⟨_, ⟨name, rfl⟩, by simp [byText]⟩

/-- A class of things with a label, one of marked things without a field of its own, and one of
marked parcels. -/
def parcels : CodeModel where
  classes := [
    { name := "shop.Labelled"
      fields := [{ name := "label", type := .ofName "java.lang.String" }]
      properties := [{ name := "label", publicName := "Label", kind := .attr true none }] },
    { name := "shop.Marked", parent := some (.ofName "shop.Labelled") },
    { name := "shop.Parcel"
      parent := some (.ofName "shop.Marked")
      fields := [{ name := "LIMIT", type := .primitive .int, isStatic := true },
        { name := "weight", type := .primitive .int },
        { name := "content", type := .ofName "java.lang.Object" }]
      properties := [{ name := "weight", publicName := "Weight", kind := .attr true none },
        { name := "content", publicName := "Content", kind := .attr false none }] }]

/-- A parcel with a label. -/
def parcelHeap : Heap := [
  .object "shop.Parcel" [(("shop.Labelled", "label"), .text "fragile"),
    (("shop.Parcel", "weight"), .int 3)]]

/-- The description of a parcel: the label first, nothing of the class between, and no constant. -/
theorem lists_line_parcel :
    parcels.validate = .ok () ∧ ∃ report, (run ⟨{}, []⟩ parcels).outcome = .ok report ∧
      ∃ s, Program.ToStringGives ⟨(run ⟨{}, []⟩ parcels).model, byText⟩ parcelHeap (.ref 0) s ∧
        textListing.lists s
          [("label", .text "fragile"), ("weight", .int 3), ("content", .null)] := by
  have hvalid : parcels.validate = .ok () := rfl
  obtain ⟨report, hrun⟩ : ∃ report, (run ⟨{}, []⟩ parcels).outcome = .ok report := ⟨_, rfl⟩
  have heligible : ∀ c ∈ parcels.classes, Eligible c := by
    have hall : ∀ c ∈ parcels.classes, ¬c.isEnum ∧ c.hasMethod "toString" [] = false := by decide
    exact fun c hc => ⟨(hall c hc).1, (hall c hc).2⟩
  have hlabelled : parcels.classes[0] ∈ parcels.classes := List.getElem_mem _
  have hmarked : parcels.classes[1] ∈ parcels.classes := List.getElem_mem _
  have hparcel : parcels.classes[2] ∈ parcels.classes := List.getElem_mem _
  have hrooted : parcels.Rooted Eligible parcels.classes[2] :=
    .derived hparcel (heligible _ hparcel) rfl
      (.derived hmarked (heligible _ hmarked) rfl
        (.root hlabelled (heligible _ hlabelled) rfl))
  have hlaws : Program.DescribesLawfully ⟨(run ⟨{}, []⟩ parcels).model, byText⟩ {} parcelHeap
      textListing := byText_describes rfl (by decide)
  have hx : parcelHeap.object? (.ref 0) = some (parcels.classes[2].name, _) := rfl
  obtain ⟨-, -, s, hgives, hlists⟩ := lists_line_of_run hvalid hrun hlaws hrooted hx
  exact ⟨hvalid, report, hrun, s, hgives, hlists⟩

end Description

end BeanSynthesis
