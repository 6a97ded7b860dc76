import Mathlib.Data.List.Forall2
import BeanSynthesis.Synthesis.Pipeline

/-!
# Growth of a model

What synthesis may do to a model, said without any pass: members are only appended, each of them
is marked by the option that made it, and everything that the schema compiler declared stays. The
relations are reflexive and transitive, so they carry over from one pass to a run.
-/

namespace BeanSynthesis

/-- `after` continues `before` with entries that all satisfy `made`, none of which clashes with an
entry before it. -/
def Continues {α : Type} (made : α → Prop) (clash : α → α → Prop) (before after : List α) : Prop :=
  ∃ added, after = before ++ added ∧ (∀ x ∈ added, made x) ∧
    (∀ x ∈ before, ∀ y ∈ added, ¬clash x y) ∧ added.Pairwise fun x y => ¬clash x y

namespace Continues

variable {α : Type} {made other : α → Prop} {clash : α → α → Prop} {xs ys zs : List α}

/-- A list continues itself. -/
@[refl] theorem refl (xs : List α) : Continues made clash xs xs :=
  ⟨[], by simp⟩

/-- What continues a continuation continues the list. -/
theorem trans (h : Continues made clash xs ys) (h' : Continues made clash ys zs) :
    Continues made clash xs zs := by
  obtain ⟨first, rfl, hmade, hold, hfirst⟩ := h
  obtain ⟨second, rfl, hmade', hold', hsecond⟩ := h'
  refine ⟨first ++ second, by simp, ?_, ?_, ?_⟩
  · intro x hx
    rcases List.mem_append.mp hx with hx | hx
    · exact hmade x hx
    · exact hmade' x hx
  · intro x hx y hy
    rcases List.mem_append.mp hy with hy | hy
    · exact hold x hx y hy
    · exact hold' x (List.mem_append_left _ hx) y hy
  · refine List.pairwise_append.mpr ⟨hfirst, hsecond, fun x hx y hy => ?_⟩
    exact hold' x (List.mem_append_right _ hx) y hy

/-- One more entry that clashes with none of those before it. -/
theorem snoc {x : α} (hmade : made x) (hfresh : ∀ y ∈ xs, ¬clash y x) :
    Continues made clash xs (xs ++ [x]) :=
  ⟨[x], rfl, by simpa using hmade, by simpa using hfresh, by simp⟩

/-- More that may be made allow no fewer continuations. -/
theorem mono (h : Continues made clash xs ys) (hsub : ∀ x, made x → other x) :
    Continues other clash xs ys := by
  obtain ⟨added, hafter, hmade, hold, hadded⟩ := h
  exact ⟨added, hafter, fun x hx => hsub x (hmade x hx), hold, hadded⟩

end Continues

/-- The method was made by the pass of one of the options, and its documentation says so. -/
def Method.MadeBy (settings : Settings) (options : List String) (m : Method) : Prop :=
  ∃ o ∈ options, m.origin = .synthesized o ∧ settings.provenance o ∈ m.javadoc.lines

/-- The constructor was made by the pass of one of the options, and its documentation says so. -/
def Constructor.MadeBy (settings : Settings) (options : List String) (c : Constructor) : Prop :=
  ∃ o ∈ options, c.origin = .synthesized o ∧ settings.provenance o ∈ c.javadoc.lines

/-- Two methods with one name and the same parameter types. -/
def Method.Clashes (m n : Method) : Prop :=
  m.name = n.name ∧ m.params.map (·.type) = n.params.map (·.type)

/-- Two constructors with the same parameter types. -/
def Constructor.Clashes (c d : Constructor) : Prop :=
  c.params.map (·.type) = d.params.map (·.type)

/-- A field keeps its declaration. Its visibility may change, and annotations may come after those
it has. -/
structure Field.Grows (before after : Field) : Prop where
  name : after.name = before.name
  type : after.type = before.type
  isStatic : after.isStatic = before.isStatic
  annotations : before.annotations <+: after.annotations

namespace Field.Grows

/-- A field may stay as it is. -/
@[refl] theorem refl (f : Field) : f.Grows f := ⟨rfl, rfl, rfl, List.prefix_rfl⟩

/-- A field that grows twice has grown. -/
theorem trans {f g h : Field} (hfg : f.Grows g) (hgh : g.Grows h) : f.Grows h where
  name := hgh.name.trans hfg.name
  type := hgh.type.trans hfg.type
  isStatic := hgh.isStatic.trans hfg.isStatic
  annotations := hfg.annotations.trans hgh.annotations

end Field.Grows

/-- A relation that holds of everything and itself holds along a list and itself. -/
theorem forall₂_refl_of {α : Type} {R : α → α → Prop} (h : ∀ a, R a a) (xs : List α) :
    List.Forall₂ R xs xs :=
  List.forall₂_same.mpr fun a _ => h a

/-- Two relations along lists compose as the relations of their members do. -/
theorem forall₂_trans {α : Type} {R : α → α → Prop} {xs ys zs : List α}
    (hxy : List.Forall₂ R xs ys) (hyz : List.Forall₂ R ys zs)
    (h : ∀ {a b c}, R a b → R b c → R a c) : List.Forall₂ R xs zs := by
  induction hxy generalizing zs with
  | nil => exact hyz
  | cons hab _ ih =>
    cases hyz with
    | cons hbc hrest => exact .cons (h hab hbc) (ih hrest)

/-- A member of the second list is related to one of the first. -/
theorem exists_of_forall₂ {α β : Type} {R : α → β → Prop} {xs : List α} {ys : List β} {y : β}
    (h : List.Forall₂ R xs ys) (hy : y ∈ ys) : ∃ x ∈ xs, R x y := by
  induction h with
  | nil => cases hy
  | @cons x y' xs ys hxy _ ih =>
    rcases List.mem_cons.mp hy with rfl | hy
    · exact ⟨x, List.mem_cons_self, hxy⟩
    · obtain ⟨x, hx, hxy⟩ := ih hy
      exact ⟨x, .tail _ hx, hxy⟩

/-- A class keeps what the schema compiler declared and only receives marked members. -/
structure BeanClass.Grows (settings : Settings) (options : List String) (before after : BeanClass) :
    Prop where
  name : after.name = before.name
  kind : after.kind = before.kind
  parent : after.parent = before.parent
  isAbstract : after.isAbstract = before.isAbstract
  properties : after.properties = before.properties
  constants : after.constants = before.constants
  fields : List.Forall₂ Field.Grows before.fields after.fields
  methods : Continues (Method.MadeBy settings options) Method.Clashes before.methods after.methods
  constructors : Continues (Constructor.MadeBy settings options) Constructor.Clashes
    before.constructors after.constructors
  interfaces : before.interfaces <+: after.interfaces
  annotations : before.annotations <+: after.annotations
  javadoc : before.javadoc <+: after.javadoc
  /-- An enumeration receives interfaces and annotations only. -/
  enumeration : before.isEnum →
    after = { before with interfaces := after.interfaces, annotations := after.annotations }

namespace BeanClass.Grows

variable {settings : Settings} {options others : List String} {b c d : BeanClass}

/-- A class may stay as it is. -/
@[refl] theorem refl (c : BeanClass) : c.Grows settings options c where
  name := rfl
  kind := rfl
  parent := rfl
  isAbstract := rfl
  properties := rfl
  constants := rfl
  fields := forall₂_refl_of Field.Grows.refl _
  methods := .refl _
  constructors := .refl _
  interfaces := List.prefix_rfl
  annotations := List.prefix_rfl
  javadoc := List.prefix_rfl
  enumeration _ := rfl

/-- A class that grows twice has grown. -/
theorem trans (hbc : b.Grows settings options c) (hcd : c.Grows settings options d) :
    b.Grows settings options d where
  name := hcd.name.trans hbc.name
  kind := hcd.kind.trans hbc.kind
  parent := hcd.parent.trans hbc.parent
  isAbstract := hcd.isAbstract.trans hbc.isAbstract
  properties := hcd.properties.trans hbc.properties
  constants := hcd.constants.trans hbc.constants
  fields := forall₂_trans hbc.fields hcd.fields Field.Grows.trans
  methods := hbc.methods.trans hcd.methods
  constructors := hbc.constructors.trans hcd.constructors
  interfaces := hbc.interfaces.trans hcd.interfaces
  annotations := hbc.annotations.trans hcd.annotations
  javadoc := hbc.javadoc.trans hcd.javadoc
  enumeration henum := by
    have hfirst := hbc.enumeration henum
    have hcenum : c.isEnum := by rw [hfirst]; exact henum
    have hsecond := hcd.enumeration hcenum
    rw [hsecond, hfirst]

/-- More options allow no less growth. -/
theorem mono (h : b.Grows settings options c) (hsub : ∀ o ∈ options, o ∈ others) :
    b.Grows settings others c :=
  { h with
    methods := h.methods.mono fun _ ⟨o, ho, hmade⟩ => ⟨o, hsub o ho, hmade⟩
    constructors := h.constructors.mono fun _ ⟨o, ho, hmade⟩ => ⟨o, hsub o ho, hmade⟩ }

end BeanClass.Grows

/-- Parameters of which at most the first one has become final. -/
def FirstMadeFinal (before after : List Param) : Prop :=
  after = before ∨ ∃ p rest, before = p :: rest ∧ after = { p with isFinal := true } :: rest

/-- What is made final twice is final. -/
theorem FirstMadeFinal.trans {ps qs rs : List Param} (h : FirstMadeFinal ps qs)
    (h' : FirstMadeFinal qs rs) : FirstMadeFinal ps rs := by
  rcases h with rfl | ⟨p, rest, rfl, rfl⟩
  · exact h'
  · rcases h' with rfl | ⟨q, others, heq, rfl⟩
    · exact .inr ⟨p, rest, rfl, rfl⟩
    · obtain ⟨rfl, rfl⟩ := List.cons.inj heq
      exact .inr ⟨p, rest, rfl, rfl⟩

/-- A method of a factory. Only one whose name starts with `create` may change, in what its
documentation says about the result and in whether its first parameter is final. -/
structure Method.Documented (before after : Method) : Prop where
  rest : after = { before with
    params := after.params
    javadoc := { before.javadoc with returns := after.javadoc.returns } }
  params : FirstMadeFinal before.params after.params
  others : ¬"create".toList <+: before.name.toList → after = before

namespace Method.Documented

/-- A method may stay undocumented. -/
@[refl] theorem refl (m : Method) : m.Documented m := ⟨rfl, .inl rfl, fun _ => rfl⟩

/-- A method that is documented twice is documented. -/
theorem trans {l m n : Method} (hlm : l.Documented m) (hmn : m.Documented n) :
    l.Documented n where
  rest := by
    rw [hmn.rest, hlm.rest]
  params := hlm.params.trans hmn.params
  others h := by
    have hlm' := hlm.others h
    subst hlm'
    exact hmn.others h

end Method.Documented

/-- A field in which only the visibility may change. -/
def Field.Published (before after : Field) : Prop :=
  after = { before with visibility := after.visibility }

/-- A field may stay unpublished. -/
@[refl] theorem Field.Published.refl (f : Field) : f.Published f := rfl

/-- A field that is published twice is published. -/
theorem Field.Published.trans {f g h : Field} (hfg : f.Published g) (hgh : g.Published h) :
    f.Published h := by
  unfold Field.Published at *
  rw [hgh, hfg]

/-- A published field has grown. -/
theorem Field.Published.grows {f g : Field} (h : f.Published g) : f.Grows g := by
  rw [h]
  exact ⟨rfl, rfl, rfl, List.prefix_rfl⟩

/-- An object factory changes only in the visibility of its fields, in its annotations, and in its
`create` methods. -/
structure BeanClass.FactoryGrows (before after : BeanClass) : Prop where
  rest : after = { before with
    fields := after.fields
    methods := after.methods
    annotations := after.annotations }
  fields : List.Forall₂ Field.Published before.fields after.fields
  methods : List.Forall₂ Method.Documented before.methods after.methods
  annotations : before.annotations <+: after.annotations

namespace BeanClass.FactoryGrows

variable {b c d : BeanClass}

/-- A factory may stay as it is. -/
@[refl] theorem refl (c : BeanClass) : c.FactoryGrows c where
  rest := rfl
  fields := forall₂_refl_of Field.Published.refl _
  methods := forall₂_refl_of Method.Documented.refl _
  annotations := List.prefix_rfl

/-- A factory that grows twice has grown. -/
theorem trans (hbc : b.FactoryGrows c) (hcd : c.FactoryGrows d) : b.FactoryGrows d where
  rest := by
    rw [hcd.rest, hbc.rest]
  fields := forall₂_trans hbc.fields hcd.fields Field.Published.trans
  methods := forall₂_trans hbc.methods hcd.methods Method.Documented.trans
  annotations := hbc.annotations.trans hcd.annotations

end BeanClass.FactoryGrows

/-- A package keeps its name and receives annotations and lines of documentation at the end. -/
structure Package.Grows (before after : Package) : Prop where
  name : after.name = before.name
  annotations : before.annotations <+: after.annotations
  javadoc : before.javadoc <+: after.javadoc

namespace Package.Grows

/-- A package may stay as it is. -/
@[refl] theorem refl (p : Package) : p.Grows p := ⟨rfl, List.prefix_rfl, List.prefix_rfl⟩

/-- A package that grows twice has grown. -/
theorem trans {p q r : Package} (hpq : p.Grows q) (hqr : q.Grows r) : p.Grows r where
  name := hqr.name.trans hpq.name
  annotations := hpq.annotations.trans hqr.annotations
  javadoc := hpq.javadoc.trans hqr.javadoc

end Package.Grows

/-- The packages of before grow in place; new ones come after them. -/
def PackagesGrow (before after : List Package) : Prop :=
  ∃ kept added, after = kept ++ added ∧ List.Forall₂ Package.Grows before kept

namespace PackagesGrow

/-- Packages may stay as they are. -/
@[refl] theorem refl (ps : List Package) : PackagesGrow ps ps :=
  ⟨ps, [], by simp, forall₂_refl_of Package.Grows.refl _⟩

/-- Packages that grow twice have grown. -/
theorem trans {ps qs rs : List Package} (hpq : PackagesGrow ps qs)
    (hqr : PackagesGrow qs rs) :
    PackagesGrow ps rs := by
  obtain ⟨kept, added, rfl, hkept⟩ := hpq
  obtain ⟨kept', added', rfl, hkept'⟩ := hqr
  have hfirst := List.forall₂_take_append kept' kept added hkept'.flip
  refine ⟨kept'.take kept.length, kept'.drop kept.length ++ added', ?_, ?_⟩
  · rw [← List.append_assoc, List.take_append_drop]
  · exact forall₂_trans hkept hfirst.flip Package.Grows.trans

end PackagesGrow

/-- A model to which members made by the passes of these options have been added, and in which
nothing else has been lost or replaced. -/
structure CodeModel.Grows (settings : Settings) (options : List String)
    (before after : CodeModel) : Prop where
  classes : List.Forall₂ (BeanClass.Grows settings options) before.classes after.classes
  objectFactories :
    List.Forall₂ BeanClass.FactoryGrows before.objectFactories after.objectFactories
  packages : PackagesGrow before.packages after.packages
  external : after.external = before.external

namespace CodeModel.Grows

variable {settings : Settings} {options others : List String} {l m n : CodeModel}

/-- A model may stay as it is. -/
@[refl] theorem refl (m : CodeModel) : m.Grows settings options m where
  classes := forall₂_refl_of BeanClass.Grows.refl _
  objectFactories := forall₂_refl_of BeanClass.FactoryGrows.refl _
  packages := .refl _
  external := rfl

/-- A model that grows twice has grown. -/
theorem trans (hlm : l.Grows settings options m) (hmn : m.Grows settings options n) :
    l.Grows settings options n where
  classes := forall₂_trans hlm.classes hmn.classes BeanClass.Grows.trans
  objectFactories :=
    forall₂_trans hlm.objectFactories hmn.objectFactories BeanClass.FactoryGrows.trans
  packages := hlm.packages.trans hmn.packages
  external := hmn.external.trans hlm.external

/-- More options allow no less growth. -/
theorem mono (h : l.Grows settings options m) (hsub : ∀ o ∈ options, o ∈ others) :
    l.Grows settings others m :=
  { h with classes := h.classes.imp fun _ _ hc => hc.mono hsub }

end CodeModel.Grows

end BeanSynthesis
