import SheetAudit.Decimal.Double
import SheetAudit.Settings
import SheetAudit.Toml.Reading

/-!
# Reading settings

Settings are written as a TOML document with a table for each area.  What is left out has its
ordinary value, and what is not known is passed over, but a value of the wrong kind spoils the
document.

## Main definitions

* `Toml.Value.fields?` — a value seen as an area of settings.
* `Settings.ofTable?` — the settings in a table.
* `SettingsError` — why settings are refused.
* `Settings.read` — the settings that a text holds.
-/

namespace SheetAudit

namespace Toml.Value

/-! ### Single values -/

def text? : Value → Option String
  | .text s => some s
  | _ => none

def boolean? : Value → Option Bool
  | .boolean b => some b
  | _ => none

/-- A natural number below `bound`. -/
def natural? (bound : Nat) : Value → Option Nat
  | .integer n => if 0 ≤ n && n < bound then some n.toNat else none
  | _ => none

/-- A number with a point, or a whole number of at most 64 bits. -/
def number? : Value → Option Float
  | .float x => some x
  | .integer n =>
    if -Nat.pow 2 63 ≤ n && n < Nat.pow 2 64 then some (Decimal.ofRatio (n < 0) n.natAbs 1) else none
  | _ => none

def list? {α : Type} (item? : Value → Option α) : Value → Option (List α)
  | .list items => items.mapM item?
  | _ => none

/-! ### Areas -/

/-- The value of a setting, told by its place among the settings of its area and by its name. -/
abbrev Fields := Nat → String → Option Value

/-- An area is a table, or a list of its settings in their order; in place of an area a moment
sets nothing. -/
def fields? : Value → Option Fields
  | .table _ entries => some fun _ name => entries.lookup name
  | .list items => some fun place _ => items[place]?
  | .moment => some fun _ _ => none
  | _ => none

end Toml.Value

open Toml.Value

/-- The value of a setting, or its ordinary value if it is left out. -/
def Toml.Value.Fields.get {α : Type} (fields : Fields) (place : Nat) (name : String)
    (read? : Toml.Value → Option α) (default : α) : Option α :=
  match fields place name with
  | some v => read? v
  | none => some default

/-! ### The areas of settings -/

def ScanSettings.ofValue? (v : Toml.Value) : Option ScanSettings := do
  let fields ← v.fields?
  let default : ScanSettings := {}
  return {
    gitignore := ← fields.get 0 "gitignore" boolean? default.gitignore
    extensions := ← fields.get 1 "extensions" (list? text?) default.extensions
    exclude := ← fields.get 2 "exclude" (list? text?) default.exclude }

def NamingSettings.ofValue? (v : Toml.Value) : Option NamingSettings := do
  let fields ← v.fields?
  let default : NamingSettings := {}
  return {
    rolePrefixes := ← fields.get 0 "role_prefixes" (list? text?) default.rolePrefixes
    sharedTokens := ← fields.get 1 "shared_tokens" (list? text?) default.sharedTokens }

def ColorSettings.ofValue? (v : Toml.Value) : Option ColorSettings := do
  let fields ← v.fields?
  let default : ColorSettings := {}
  return { minContrast := ← fields.get 0 "min_contrast" number? default.minContrast }

def ResponsiveSettings.ofValue? (v : Toml.Value) : Option ResponsiveSettings := do
  let fields ← v.fields?
  let default : ResponsiveSettings := {}
  return {
    breakpoints := ← fields.get 0 "breakpoints" (list? number?) default.breakpoints
    tolerance := ← fields.get 1 "tolerance" number? default.tolerance
    nearDuplicateRange :=
      ← fields.get 2 "near_duplicate_range" number? default.nearDuplicateRange
    minTouchTarget := ← fields.get 3 "min_touch_target" number? default.minTouchTarget }

def QualitySettings.ofValue? (v : Toml.Value) : Option QualitySettings := do
  let fields ← v.fields?
  let default : QualitySettings := {}
  return {
    maxUtilitySpecificity :=
      ← fields.get 0 "max_utility_specificity" (natural? (Nat.pow 2 32)) default.maxUtilitySpecificity
    maxNestingDepth :=
      ← fields.get 1 "max_nesting_depth" (natural? (Nat.pow 2 64)) default.maxNestingDepth }

def CommentSettings.ofValue? (v : Toml.Value) : Option CommentSettings := do
  let fields ← v.fields?
  let default : CommentSettings := {}
  return {
    minHeaderLength :=
      ← fields.get 0 "min_header_length" (natural? (Nat.pow 2 64)) default.minHeaderLength
    separatorMinLines :=
      ← fields.get 1 "separator_min_lines" (natural? (Nat.pow 2 64)) default.separatorMinLines
    separatorMinBlocks :=
      ← fields.get 2 "separator_min_blocks" (natural? (Nat.pow 2 64)) default.separatorMinBlocks }

def RunSettings.ofValue? (v : Toml.Value) : Option RunSettings := do
  let fields ← v.fields?
  let default : RunSettings := {}
  return { parallel := ← fields.get 0 "parallel" boolean? default.parallel }

/-- The settings in a table. -/
def Settings.ofTable? (t : Toml.Table) : Option Settings := do
  let area {α : Type} (name : String) (ofValue? : Toml.Value → Option α) (default : α) : Option α :=
    match t.lookup name with
    | some v => ofValue? v
    | none => some default
  let default : Settings := {}
  return {
    version := ← area "version" (fun v => (text? v).map some) default.version
    scan := ← area "scanner" ScanSettings.ofValue? default.scan
    naming := ← area "naming" NamingSettings.ofValue? default.naming
    color := ← area "color" ColorSettings.ofValue? default.color
    responsive := ← area "responsive" ResponsiveSettings.ofValue? default.responsive
    quality := ← area "quality" QualitySettings.ofValue? default.quality
    comments := ← area "comments" CommentSettings.ofValue? default.comments
    run := ← area "audit" RunSettings.ofValue? default.run }

/-! ### Documents -/

/-- Why settings are refused. -/
inductive SettingsError where
  /-- The text is no TOML document, or a value in it is of the wrong kind. -/
  | malformed
  | unsupportedVersion (version : String)
  deriving Repr, DecidableEq

/-- The one version of the settings format. -/
def Settings.supportedVersion : String := "1"

/-- The settings that a text holds. -/
def Settings.read (document : String) : Except SettingsError Settings :=
  match (Toml.parse document.toList).bind Settings.ofTable? with
  | none => .error .malformed
  | some s =>
    match s.version with
    | none => .ok s
    | some v => if v == supportedVersion then .ok s else .error (.unsupportedVersion v)

end SheetAudit
