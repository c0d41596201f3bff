import SheetAudit.Text.Search

/-!
# Properties

The properties of the language by what their values carry, and the words that have a meaning
of their own as values, as selectors or as parts of names.

## Main definitions

* `listed` — whether a table holds a name, in any letter case.
-/

namespace SheetAudit
namespace Property

/-- The table holds the name, in any letter case. -/
def listed (table : List String) (name : String) : Bool := table.contains (Text.asciiLower name)

/-! ### Properties by what they carry -/

/-- Properties whose values carry a color. -/
def colored : List String :=
  ["color", "background", "background-color", "border", "border-color", "border-top",
    "border-right", "border-bottom", "border-left", "border-top-color", "border-right-color",
    "border-bottom-color", "border-left-color", "border-inline-color", "border-block-color",
    "outline", "outline-color", "fill", "stroke", "box-shadow", "text-shadow",
    "text-decoration-color", "caret-color", "column-rule-color", "accent-color"]

/-- Margins, paddings and gaps with their directional and logical variants. -/
def spacing : List String :=
  ["margin", "margin-top", "margin-right", "margin-bottom", "margin-left", "margin-inline",
    "margin-inline-start", "margin-inline-end", "margin-block", "margin-block-start",
    "margin-block-end", "padding", "padding-top", "padding-right", "padding-bottom",
    "padding-left", "padding-inline", "padding-inline-start", "padding-inline-end",
    "padding-block", "padding-block-start", "padding-block-end", "gap", "row-gap", "column-gap",
    "grid-gap"]

/-- Corner radii. -/
def radius : List String :=
  ["border-radius", "border-top-left-radius", "border-top-right-radius",
    "border-bottom-left-radius", "border-bottom-right-radius", "border-start-start-radius",
    "border-start-end-radius", "border-end-start-radius", "border-end-end-radius"]

/-- Properties that may carry durations. -/
def duration : List String :=
  ["transition", "transition-duration", "transition-delay", "animation", "animation-duration",
    "animation-delay"]

/-- Properties that may carry easing functions. -/
def easing : List String :=
  ["transition", "transition-timing-function", "animation", "animation-timing-function"]

/-- Properties that put an element in motion. -/
def motion : List String :=
  ["animation", "animation-name", "transition", "transition-property", "transform"]

/-- Properties that set the size of an element. -/
def size : List String :=
  ["width", "height", "min-width", "min-height"]

/-- Properties that can show the focus in place of an outline. -/
def visibleFocus : List String :=
  ["box-shadow", "border", "border-color", "border-bottom", "outline", "outline-color",
    "outline-style", "outline-width", "background", "background-color", "text-decoration"]

/-- Vendor-prefixed properties that every supported browser handles without the prefix. -/
def vendorPrefixed : List String :=
  ["-webkit-border-radius", "-moz-border-radius", "-webkit-box-shadow", "-moz-box-shadow",
    "-webkit-transition", "-moz-transition", "-o-transition", "-webkit-transform",
    "-moz-transform", "-ms-transform", "-o-transform", "-webkit-animation", "-moz-animation",
    "-o-animation", "-webkit-box-sizing", "-moz-box-sizing", "-webkit-flex", "-ms-flex",
    "-webkit-flex-direction", "-ms-flex-direction", "-webkit-justify-content",
    "-webkit-align-items", "-moz-opacity", "-webkit-opacity", "-webkit-background-clip",
    "-moz-background-clip", "-webkit-background-size", "-moz-background-size"]

/-! ### Words with a meaning -/

/-- Keywords that may stand where a color is expected. -/
def allowedColorKeywords : List String :=
  ["transparent", "inherit", "initial", "unset", "revert", "currentcolor", "none"]

/-- Radii that express a shape rather than a size. -/
def radiusShapes : List String :=
  ["50%", "100%"]

/-- Easings that are written as a word. -/
def easingKeywords : List String :=
  ["ease", "ease-in", "ease-out", "ease-in-out", "linear"]

/-- Easings that are written as a function. -/
def easingFunctions : List String :=
  ["cubic-bezier", "steps"]

/-- Words that describe a color rather than a role. -/
def colorWords : List String :=
  ["red", "blue", "green", "gray", "grey", "white", "black", "yellow", "orange", "purple",
    "pink", "brown", "teal", "cyan", "navy", "silver", "gold", "indigo", "violet", "slate",
    "zinc", "neutral", "stone", "amber", "emerald", "sky", "rose", "lime"]

/-- Elements that receive keyboard focus. -/
def interactiveElements : List String :=
  ["button", "a", "input", "select", "textarea"]

/-- Attribute selectors that make an element interactive. -/
def interactiveAttributes : List String :=
  ["[role=\"button\"]", "[role=button]", "[tabindex]"]

/-- Parts of class names that mark a button. -/
def buttonHints : List String :=
  ["btn", "button"]

/-- Parts of class names that make a class look tappable. -/
def touchTargetHints : List String :=
  ["btn", "button", "link", "toggle", "tab", "chip", "close", "icon"]

/-- Pseudo-classes that select what has the focus. -/
def focusPseudoClasses : List String :=
  [":focus-visible", ":focus-within", ":focus"]

/-- Beginnings of class names that mark a utility. -/
def utilityPrefixes : List String :=
  ["m-", "mt-", "mr-", "mb-", "ml-", "mx-", "my-", "p-", "pt-", "pr-", "pb-", "pl-", "px-",
    "py-", "gap-", "text-", "bg-", "u-", "is-", "has-", "d-", "w-", "h-", "flex", "grid"]

/-- Class names that are utilities by themselves. -/
def utilityNames : List String :=
  ["sr-only", "visually-hidden", "hidden", "clearfix"]

end Property
end SheetAudit
