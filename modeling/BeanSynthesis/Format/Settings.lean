import BeanSynthesis.Format.Types
import BeanSynthesis.Model.Error
import BeanSynthesis.Settings.Basic
import BeanSynthesis.Synthesis.Pass.Constraints
import BeanSynthesis.Toml.Reader

/-!
# Settings in the exchange format

Settings are read from TOML or JSON. Every member may be missing and then has its default.
-/

namespace BeanSynthesis

open Json (Node Fields Decoded)

namespace ValidationSettings

/-- The names of the members. -/
def memberNames : List String := ["package"]

/-- The names of annotations as data. -/
def toJson (s : ValidationSettings) : Json := .obj (memberNames.zip [.str s.package])

/-- Reads the names of annotations from data. -/
def ofNode (node : Node) : Decoded ValidationSettings := do
  let fields ← node.record memberNames
  let standard : ValidationSettings := {}
  return { package := ← fields.withDefault "package" standard.package Node.text }

end ValidationSettings

namespace RuntimeClasses

/-- The names of the members. -/
def memberNames : List String := ["equals_helper", "collection_equals_helper",
  "hash_code_generator", "hash_code_calculator", "to_string_generator", "jaxb_helper",
  "array_helper", "generic_reflection", "cloneable_interface", "dom_node", "nullable", "non_null",
  "nonnegative", "returns_mutable_copy", "coding_styleguide_unaware", "null_marked"]

/-- The names of helper classes as data. -/
def toJson (r : RuntimeClasses) : Json :=
  .obj (memberNames.zip ([r.equalsHelper, r.collectionEqualsHelper, r.hashCodeGenerator,
    r.hashCodeCalculator, r.toStringGenerator, r.jaxbHelper, r.arrayHelper, r.genericReflection,
    r.cloneableInterface, r.domNode, r.nullable, r.nonNull, r.nonnegative, r.returnsMutableCopy,
    r.codingStyleguideUnaware, r.nullMarked].map Json.str))

/-- Reads the names of helper classes from data. -/
def ofNode (node : Node) : Decoded RuntimeClasses := do
  let fields ← node.record memberNames
  let standard : RuntimeClasses := {}
  let name (member default : String) : Decoded String := fields.withDefault member default Node.text
  return {
    equalsHelper := ← name "equals_helper" standard.equalsHelper
    collectionEqualsHelper := ← name "collection_equals_helper" standard.collectionEqualsHelper
    hashCodeGenerator := ← name "hash_code_generator" standard.hashCodeGenerator
    hashCodeCalculator := ← name "hash_code_calculator" standard.hashCodeCalculator
    toStringGenerator := ← name "to_string_generator" standard.toStringGenerator
    jaxbHelper := ← name "jaxb_helper" standard.jaxbHelper
    arrayHelper := ← name "array_helper" standard.arrayHelper
    genericReflection := ← name "generic_reflection" standard.genericReflection
    cloneableInterface := ← name "cloneable_interface" standard.cloneableInterface
    domNode := ← name "dom_node" standard.domNode
    nullable := ← name "nullable" standard.nullable
    nonNull := ← name "non_null" standard.nonNull
    nonnegative := ← name "nonnegative" standard.nonnegative
    returnsMutableCopy := ← name "returns_mutable_copy" standard.returnsMutableCopy
    codingStyleguideUnaware :=
      ← name "coding_styleguide_unaware" standard.codingStyleguideUnaware
    nullMarked := ← name "null_marked" standard.nullMarked }

end RuntimeClasses

namespace Settings

/-- The names of the members. -/
def memberNames : List String := ["generator_name", "debug", "log_level", "passes", "implements",
  "validation", "runtime"]

/-- Settings as data. -/
def toJson (s : Settings) : Json :=
  .obj (memberNames.zip [.str s.generatorName, .bool s.debug, .str s.logLevel, .strs s.passes,
    .strs s.implements, s.validation.toJson, s.runtime.toJson])

/-- Reads settings from data. -/
def ofNode (node : Node) : Decoded Settings := do
  let fields ← node.record memberNames
  let standard : Settings := {}
  return {
    generatorName := ← fields.withDefault "generator_name" standard.generatorName Node.text
    debug := ← fields.withDefault "debug" standard.debug Node.bool
    logLevel := ← fields.withDefault "log_level" standard.logLevel Node.text
    passes := ← fields.withDefault "passes" standard.passes (Node.list Node.text)
    implements := ← fields.withDefault "implements" standard.implements (Node.list Node.text)
    validation := ← fields.withDefault "validation" standard.validation ValidationSettings.ofNode
    runtime := ← fields.withDefault "runtime" standard.runtime RuntimeClasses.ofNode }

/-- What is looked at of a TOML document with settings: items of a record that is written as an
array do not count if there is no member for them. -/
def relevant (document : Toml) : Toml :=
  (document.mapEntry "validation" (Toml.takeItems ValidationSettings.memberNames.length)).mapEntry
    "runtime" (Toml.takeItems RuntimeClasses.memberNames.length)

/-- Reads settings from a TOML text. A blank text stands for the defaults. Every number that is
looked at must have a value, also where nobody asks for it. -/
def ofToml (text : String) : Except ModelError Settings :=
  if Text.trimChars text.toList = [] then .ok {}
  else
    match Toml.parse? text with
    | none => .error (.config "malformed TOML text")
    | some document =>
      match (relevant document).toJson? with
      | none => .error (.config "number out of range")
      | some data => (ofNode (.ofJson data)).mapError (.config ·.message)

end Settings

namespace ValidationDialect

/-- The dialects by name. -/
def names : List (String × ValidationDialect) := [("jsr303", jsr303), ("jsr349", jsr349)]

/-- Reads a dialect from data. -/
def ofNode (node : Node) : Decoded ValidationDialect := node.choice names

end ValidationDialect

end BeanSynthesis
