import Bindery.Project.Config
import Bindery.Report
import Bindery.Toml.Reader
import Bindery.Toml.Record

/-! Reading the configuration of a project from TOML. Every table may be left out, and so may every
entry but the two of a root. -/

set_option autoImplicit false

namespace Bindery.Project

open Toml (Fields)

def configFileName : String := "hydra.toml"

def FrontendConfig.ofToml? (value : Toml) : Option FrontendConfig := do
  let fields ← value.fields? ["cflags", "include_path", "plugins"]
  return {
    cflags := ← fields.optional "cflags" [] (Toml.list? Toml.text?)
    includePath := ← fields.optional "include_path" [] (Toml.list? Toml.text?)
    plugins := ← fields.optional "plugins" [] (Toml.list? Toml.text?) }

def RootConfig.ofToml? (value : Toml) : Option RootConfig := do
  let fields ← value.fields? ["name", "header"]
  return {
    name := ← fields.required "name" Toml.text?
    header := ← fields.required "header" Toml.text? }

def PolicyConfig.ofToml? (value : Toml) : Option PolicyConfig := do
  let fields ← value.fields? ["exclude", "casters", "caster_template",
    "drop_records_with_unresolved_bases", "exported_enums", "return_policies", "replacements",
    "addon_methods"]
  return {
    exclude := ← fields.optional "exclude" [] (Toml.list? Toml.text?)
    casters := ← fields.optional "casters" [] (Toml.list? Toml.text?)
    casterTemplate := ← fields.optional "caster_template" none fun value => value.text?.map some
    dropUnresolvedBases :=
      ← fields.optional "drop_records_with_unresolved_bases" false Toml.boolean?
    exportedEnums := ← fields.optional "exported_enums" [] (Toml.list? Toml.text?)
    returnPolicies := ← fields.optional "return_policies" ∅ (Toml.map? Toml.text?)
    replacements := ← fields.optional "replacements" ∅ (Toml.map? Toml.text?)
    addonMethods := ← fields.optional "addon_methods" ∅ (Toml.map? (Toml.map? Toml.text?)) }

def EmitConfig.ofToml? (value : Toml) : Option EmitConfig := do
  let fields ← value.fields? ["module", "constructors", "fields", "methods", "prolog"]
  let default : EmitConfig := {}
  return {
    moduleName := ← fields.optional "module" default.moduleName Toml.text?
    constructors := ← fields.optional "constructors" default.constructors Toml.boolean?
    fields := ← fields.optional "fields" default.fields Toml.boolean?
    methods := ← fields.optional "methods" default.methods Toml.boolean?
    prolog := ← fields.optional "prolog" default.prolog (Toml.list? Toml.text?) }

def Config.ofToml? (value : Toml) : Option Config := do
  let fields ← value.fields? ["frontend", "bindings", "policy", "emit"]
  return {
    frontend := ← fields.optional "frontend" {} FrontendConfig.ofToml?
    bindings := ← fields.optional "bindings" [] (Toml.list? RootConfig.ofToml?)
    policy := ← fields.optional "policy" {} PolicyConfig.ofToml?
    emit := ← fields.optional "emit" {} EmitConfig.ofToml? }

def Config.parse? (text : String) : Option Config := (Toml.parse? text).bind ofToml?

inductive ConfigError where
  | unreadable (path : String)
  | invalid
  deriving DecidableEq, Repr

def ConfigError.report : ConfigError → Report
  | .unreadable path =>
    { message := s!"Error reading configuration {path}"
      code := "hydra_bind::config_read" }
  | .invalid =>
    { message := "Invalid configuration: the text is not TOML for a project"
      code := "hydra_bind::config_parse"
      help := some "Check your hydra.toml syntax against the documented sections" }

def Config.ofText (text : String) : Except ConfigError Config :=
  match parse? text with
  | some config => .ok config
  | none => .error .invalid

end Bindery.Project
