import SheetAudit.Property
import SheetAudit.Sheet.Basic
import SheetAudit.Value.Literal

/-!
# The purpose of properties and classes

The purpose of a custom property is read off its value and its name, the kind of a class off its
name and its rule.

## Main definitions

* `Purpose.infer` — the purpose of a custom property.
* `ClassKind.infer` — whether a class is a utility or a component.
-/

namespace SheetAudit

/-- A color value decides at once; then the name is searched for words that tell the purpose. -/
def Purpose.infer (name value : List Char) : Purpose :=
  let lower := Text.lowerAscii name
  let mentions (words : List String) : Bool := words.any fun w => Text.contains w.toList lower
  if Value.isColor value then .color
  else if mentions ["radius", "rounded"] then .radius
  else if "--ease".toList.isPrefixOf lower ||
      mentions ["duration", "transition", "easing", "delay", "speed"] ||
      !(Value.times value).isEmpty then .duration
  else if mentions
      ["font", "line-height", "leading", "text-size", "letter-spacing", "tracking"] then .font
  else if mentions ["space", "spacing", "gap", "gutter", "margin", "padding"] then .spacing
  else if mentions ["color", "colour"] then .color
  else .other

/-- A utility has a utility name, or a selector that is nothing but the class and no more than
three declarations. -/
def ClassKind.infer (name selector : List Char) (declarations : Nat) : ClassKind :=
  let lower := Text.lowerAscii name
  let named := Property.utilityNames.contains (String.ofList lower) ||
    Property.utilityPrefixes.any fun p => p.toList.isPrefixOf lower
  let bare := Text.trim selector == '.' :: name
  if named || (bare && declarations ≤ 3) then .utility else .component

end SheetAudit
