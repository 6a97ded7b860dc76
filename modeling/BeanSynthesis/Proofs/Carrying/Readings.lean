import BeanSynthesis.Proofs.Carrying.Calls

/-!
# How values are read from carriers

A getter for a carried value asks its own class for the carrier and then the carrier for the value.
The second call is named after the type of the value: `isValue` for the primitive truth value, and
`getValue` for all other types. That is the getter which bean naming gives the value of a carrier,
unless the carrier holds truth values of the wrapper class.
-/

namespace BeanSynthesis

/-- The wrapper class of truth values, with its package or without. -/
def TypeExpr.IsBooleanClass : TypeExpr → Prop
  | named name _ => name = "java.lang.Boolean" ∨ name = "Boolean"
  | _ => False

namespace ValueAccessors

variable {context : PassContext} {m : CodeModel} {found : Carriers} {c : BeanClass} {n x : Method}
  {type : TypeExpr} {property : String}

/-- The method with which the value of a carrier is read. -/
def readerName (type : TypeExpr) : String := if readsWithIs type then "isValue" else "getValue"

private theorem capitalize_value : Naming.capitalize "value" = "Value" := by decide +kernel

/-- Truth values of the primitive type and of the wrapper class are the same to bean naming. -/
theorem isBooleanLike_iff (t : TypeExpr) :
    t.isBooleanLike ↔ readsWithIs t ∨ t.IsBooleanClass := by
  cases t with
  | named name args => simp [TypeExpr.isBooleanLike, readsWithIs, TypeExpr.IsBooleanClass]
  | _ => simp [TypeExpr.isBooleanLike, readsWithIs, TypeExpr.IsBooleanClass]

private theorem not_readsWithIs_of_isBooleanClass (h : type.IsBooleanClass) :
    ¬readsWithIs type := by
  cases type with
  | named name args => simp [readsWithIs]
  | _ => exact h.elim

private theorem readerName_of_isBooleanClass (h : type.IsBooleanClass) :
    readerName type = "getValue" :=
  if_neg (not_readsWithIs_of_isBooleanClass h)

/-- The value of a carrier is read with its bean getter, unless it is of the wrapper class of truth
values. -/
theorem readerName_eq_getterName_iff (type : TypeExpr) :
    readerName type = Naming.getterName type "value" ↔ ¬type.IsBooleanClass := by
  rw [readerName, Naming.getterName, capitalize_value]
  have hlike := isBooleanLike_iff type
  by_cases hclass : type.IsBooleanClass
  · rw [if_neg (not_readsWithIs_of_isBooleanClass hclass), if_pos (hlike.mpr (.inr hclass))]
    simp [hclass]
  · rw [or_iff_left hclass] at hlike
    simp only [hlike, hclass, not_false_eq_true, iff_true]
    split <;> rfl

/-- The local view of a value is read with the bean getter of the value, marked as local. -/
theorem getterName_of_localCompanion? {companion : LocalCompanion}
    (h : localCompanion? type = some companion) : Naming.getterName type "value" = "getValue" := by
  have hlike : ¬type.isBooleanLike := by
    cases type with
    | named name args =>
      intro hname
      have hsimple : simpleName name = "Boolean" := by
        rcases (by simpa [TypeExpr.isBooleanLike] using hname : _ ∨ _) with rfl | rfl <;>
          decide +kernel
      simp [localCompanion?, hsimple] at h
    | _ => cases h
  rw [Naming.getterName, if_neg hlike, capitalize_value]
  rfl

/-! ## The members of a run -/

/-- A method for a value next to a setter for its carrier. It gives the value to the carrier that
the class has, or to a new one, and reads nothing of a carrier. -/
def SetsValue (m : CodeModel) (found : Carriers) (c : BeanClass) (x : Method) : Prop :=
  ∃ n ∈ c.methods, ∃ property type carrier form, SetsCarrier m found n property type ∧
    n.params.map (·.type) = [carrier] ∧ x.name = n.name ∧
      x.calls c.asType = [⟨some c.asType, "get" ++ property, []⟩,
        ⟨some c.asType, n.name, [some carrier]⟩,
        ⟨some carrier, Naming.setterName "value", [some form]⟩]

/-- A method for a value of the type next to a getter for its carrier. It asks the class for the
carrier and the carrier for the value, which it reads with `read`. -/
def ReadsValue (m : CodeModel) (found : Carriers) (c : BeanClass) (x : Method) (type : TypeExpr)
    (read : String) : Prop :=
  ∃ n ∈ c.methods, ∃ property, GetsCarrier m found n property type ∧
    x.calls c.asType = [⟨some c.asType, n.name, []⟩, ⟨some n.returnType, read, []⟩] ∧
      (x.name = valueGetterName property type ∧
          (read = Naming.getterName type "value" ↔ ¬type.IsBooleanClass) ∧
          (type.IsBooleanClass → read = "getValue") ∨
        x.name = valueGetterName property type ++ "Local" ∧
          read = Naming.getterName type "value" ++ "Local")

private theorem readsValue_of_mem_gettersOf {settings : Settings}
    (hn : n ∈ c.methods) (hgets : GetsCarrier m found n property type)
    (hx : x ∈ gettersOf settings (takesLocal context) n property type) :
    ∃ read, ReadsValue m found c x type read := by
  rcases mem_gettersOf_iff.mp hx with rfl | ⟨-, companion, hcompanion, rfl⟩
  · exact ⟨_, n, hn, property, hgets, calls_valueGetter .., .inl
      ⟨valueGetter_name .., readerName_eq_getterName_iff type, readerName_of_isBooleanClass⟩⟩
  · refine ⟨_, n, hn, property, hgets, calls_valueGetter .., .inr ⟨valueGetter_name .., ?_⟩⟩
    rw [getterName_of_localCompanion? hcompanion]
    rfl

/-- What is offered to a class gives a value to a carrier or reads one from it. -/
theorem setsValue_or_readsValue_of_mem (hm : m.WellFormed)
    (hfound : (Carriers.ofModel m).outcome = .ok found) (hx : x ∈ (edit context m c).methods) :
    SetsValue m found c x ∨ ∃ type read, ReadsValue m found c x type read := by
  rcases List.mem_append.mp hx with hx | hx
  · obtain ⟨n, hn, hx⟩ := List.mem_flatMap.mp hx
    obtain ⟨param, property, type, hparams, hproperty, hcarried, form, -, rfl⟩ :=
      exists_of_mem_settersFor hx
    exact .inl ⟨n, hn, property, type, param.type, form,
      (setsCarrier_iff hm hfound).mpr ⟨param, hparams, hproperty, hcarried⟩,
      by rw [hparams]; rfl, rfl, calls_valueSetter ..⟩
  · rw [getters_eq] at hx
    obtain ⟨n, hn, hx⟩ := List.mem_flatMap.mp hx
    obtain ⟨property, type, hparams, hproperty, hcarried, -, hx⟩ := exists_of_mem_offeredGetters hx
    have hgets : GetsCarrier m found n property type :=
      (getsCarrier_iff hm hfound).mpr ⟨hparams, hproperty, hcarried⟩
    exact .inr ⟨type, readsValue_of_mem_gettersOf hn hgets hx⟩

/-- Every method that the pass adds gives a value to a carrier or reads one from it. It reads the
value with its bean getter if and only if the value is not of the wrapper class of truth values,
and the local view with that getter marked as local. Next to each getter for a carrier there is such
a method, unless its name is taken. -/
theorem run_reads (context : PassContext) (hvalid : m.validate = .ok ()) :
    ∃ found report, (Carriers.ofModel m).outcome = .ok found ∧
      (run context m).outcome = .ok report ∧
      List.Forall₂
        (fun c d => ∃ added, d.methods = c.methods ++ added ∧
          (∀ x ∈ added, SetsValue m found c x ∨ ∃ type read, ReadsValue m found c x type read) ∧
          (¬c.isEnum → ∀ n ∈ c.methods, ∀ property type, GetsCarrier m found n property type →
            ¬c.hasMethod (valueGetterName property type) [] →
            ¬c.hasMethod (valueGetterName property type) [type] →
              ∃ x ∈ added, x.name = valueGetterName property type))
        m.classes (run context m).model.classes := by
  have hm := CodeModel.wellFormed_of_validate hvalid
  obtain ⟨found, hfound⟩ := failure?_eq_none.mp (succeeds_ofModel m)
  obtain ⟨report, hrun⟩ := succeeds_run context m
  refine ⟨found, report, hfound, hrun, ?_⟩
  rw [run_model, List.forall₂_map_right_iff, List.forall₂_same]
  intro c hc
  rw [madeOf]
  split
  case isTrue henum =>
    exact ⟨[], (List.append_nil _).symm, by simp, fun hplain => absurd henum hplain⟩
  case isFalse hplain =>
    refine ⟨_, methods_made,
      fun x hx => setsValue_or_readsValue_of_mem hm hfound (mem_of_mem_newcomers hx), ?_⟩
    intro _ n hn property type hgets hfree hfree'
    have hextended := extended_made hm hfound hrun hc hplain
    have hnames : NamesValueGetter property type (valueGetterName property type) :=
      namesValueGetter_iff.mpr rfl
    rcases hextended.getters n hn property type _ hgets hnames with ⟨htaken, -⟩ | ⟨hhas, -⟩
    · exact absurd htaken hfree
    · rw [BeanClass.hasMethod_iff, methods_made, List.map_append, List.mem_append] at hhas
      rcases hhas with hold | hnew
      · rw [← BeanClass.hasMethod_iff] at hold
        split at hold
        · exact absurd hold hfree'
        · exact absurd hold hfree
      · obtain ⟨x, hx, hkey⟩ := List.mem_map.mp hnew
        exact ⟨x, hx, congrArg Prod.fst hkey⟩

/-- A class that carries a truth value of the wrapper class. -/
def flagCarrier : BeanClass where
  name := "shop.Flag"
  fields := [{ name := "value", type := .named "java.lang.Boolean" [] }]

/-- A class that can be asked for such a carrier. -/
def order : BeanClass where
  name := "shop.Order"
  fields := [{ name := "paid", type := .ofName "shop.Flag" }]
  methods := [{ name := "getPaid", returnType := .ofName "shop.Flag", body := some [] }]

/-- The value of the carrier is read with a method that is not its bean getter. -/
theorem order_reads_otherwise :
    let context : PassContext := { settings := {}, active := [option] }
    let m : CodeModel := { classes := [flagCarrier, order] }
    m.validate = .ok () ∧ ∃ d ∈ (run context m).model.classes, ∃ x ∈ d.methods, ∃ read,
      x.calls order.asType =
        [⟨some order.asType, "getPaid", []⟩, ⟨some (.ofName "shop.Flag"), read, []⟩] ∧
      read ≠ Naming.getterName (.named "java.lang.Boolean" []) "value" := by
  intro context m
  have hvalid : m.validate = .ok () := rfl
  obtain ⟨found, report, -, -, hclasses⟩ := run_reads context hvalid
  obtain ⟨d, hd, added, hmethods, hmade, hcomplete⟩ := exists_of_forall₂ hclasses.flip
    (show order ∈ m.classes from .tail _ List.mem_cons_self)
  have hcarrier : NamesCarrier m found (.ofName "shop.Flag") (.named "java.lang.Boolean" []) :=
    ⟨flagCarrier, List.mem_cons_self, by decide, ⟨[], rfl⟩, rfl⟩
  obtain ⟨x, hx, -⟩ := hcomplete (by decide) _ (List.mem_singleton.mpr rfl) "Paid" _
    ⟨rfl, by decide, rfl, hcarrier⟩ (by decide +kernel) (by decide +kernel)
  refine ⟨hvalid, d, hd, x, hmethods ▸ List.mem_append_right _ hx, ?_⟩
  rcases hmade x hx with ⟨n, hn, property, type, carrier, form, hsets, -⟩ |
    ⟨type, read, n, hn, property, hgets, hcalls, hread⟩
  · obtain rfl := List.mem_singleton.mp hn
    have hname : "getPaid" = "set" ++ property := hsets.name
    have hchars := congrArg String.toList hname
    simp at hchars
  · obtain rfl := List.mem_singleton.mp hn
    obtain ⟨c, hc, -, ⟨args, hnamed⟩, hvalue⟩ := hgets.carrier
    have hflag : c = flagCarrier := by
      rcases List.mem_pair.mp hc with rfl | rfl
      · rfl
      · exact absurd (TypeExpr.named.inj hnamed).1 (by decide)
    subst hflag
    obtain rfl : .named "java.lang.Boolean" [] = type := Option.some.inj hvalue
    refine ⟨read, hcalls, ?_⟩
    rcases hread with ⟨-, hbean, -⟩ | ⟨-, rfl⟩
    · exact fun heq => hbean.mp heq (.inl rfl)
    · decide +kernel

end ValueAccessors

end BeanSynthesis
