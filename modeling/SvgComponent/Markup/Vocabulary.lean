/-!
# The vocabulary of SVG and JSX

* `jsxName`: the JSX spelling of an attribute name.
* `isVoid`: whether elements of this name never have children.
-/

namespace SvgComponent.Markup

/-- Attributes whose JSX spelling differs, with that spelling. -/
def spellings : List (String × String) :=
  [("accent-height", "accentHeight"),
   ("alignment-baseline", "alignmentBaseline"),
   ("arabic-form", "arabicForm"),
   ("baseline-shift", "baselineShift"),
   ("cap-height", "capHeight"),
   ("clip-path", "clipPath"),
   ("clip-rule", "clipRule"),
   ("color-interpolation", "colorInterpolation"),
   ("color-interpolation-filters", "colorInterpolationFilters"),
   ("color-profile", "colorProfile"),
   ("color-rendering", "colorRendering"),
   ("dominant-baseline", "dominantBaseline"),
   ("enable-background", "enableBackground"),
   ("fill-opacity", "fillOpacity"),
   ("fill-rule", "fillRule"),
   ("flood-color", "floodColor"),
   ("flood-opacity", "floodOpacity"),
   ("font-family", "fontFamily"),
   ("font-size", "fontSize"),
   ("font-size-adjust", "fontSizeAdjust"),
   ("font-stretch", "fontStretch"),
   ("font-style", "fontStyle"),
   ("font-variant", "fontVariant"),
   ("font-weight", "fontWeight"),
   ("glyph-name", "glyphName"),
   ("glyph-orientation-horizontal", "glyphOrientationHorizontal"),
   ("glyph-orientation-vertical", "glyphOrientationVertical"),
   ("horiz-adv-x", "horizAdvX"),
   ("horiz-origin-x", "horizOriginX"),
   ("image-rendering", "imageRendering"),
   ("letter-spacing", "letterSpacing"),
   ("lighting-color", "lightingColor"),
   ("marker-end", "markerEnd"),
   ("marker-mid", "markerMid"),
   ("marker-start", "markerStart"),
   ("overline-position", "overlinePosition"),
   ("overline-thickness", "overlineThickness"),
   ("paint-order", "paintOrder"),
   ("panose-1", "panose1"),
   ("pointer-events", "pointerEvents"),
   ("rendering-intent", "renderingIntent"),
   ("shape-rendering", "shapeRendering"),
   ("stop-color", "stopColor"),
   ("stop-opacity", "stopOpacity"),
   ("strikethrough-position", "strikethroughPosition"),
   ("strikethrough-thickness", "strikethroughThickness"),
   ("stroke-dasharray", "strokeDasharray"),
   ("stroke-dashoffset", "strokeDashoffset"),
   ("stroke-linecap", "strokeLinecap"),
   ("stroke-linejoin", "strokeLinejoin"),
   ("stroke-miterlimit", "strokeMiterlimit"),
   ("stroke-opacity", "strokeOpacity"),
   ("stroke-width", "strokeWidth"),
   ("text-anchor", "textAnchor"),
   ("text-decoration", "textDecoration"),
   ("text-rendering", "textRendering"),
   ("underline-position", "underlinePosition"),
   ("underline-thickness", "underlineThickness"),
   ("unicode-bidi", "unicodeBidi"),
   ("unicode-range", "unicodeRange"),
   ("units-per-em", "unitsPerEm"),
   ("v-alphabetic", "vAlphabetic"),
   ("v-hanging", "vHanging"),
   ("v-ideographic", "vIdeographic"),
   ("v-mathematical", "vMathematical"),
   ("vector-effect", "vectorEffect"),
   ("vert-adv-y", "vertAdvY"),
   ("vert-origin-x", "vertOriginX"),
   ("vert-origin-y", "vertOriginY"),
   ("word-spacing", "wordSpacing"),
   ("writing-mode", "writingMode"),
   ("x-height", "xHeight"),
   ("xlink:actuate", "xlinkActuate"),
   ("xlink:arcrole", "xlinkArcrole"),
   ("xlink:href", "xlinkHref"),
   ("xlink:role", "xlinkRole"),
   ("xlink:show", "xlinkShow"),
   ("xlink:title", "xlinkTitle"),
   ("xlink:type", "xlinkType"),
   ("xml:base", "xmlBase"),
   ("xml:lang", "xmlLang"),
   ("xml:space", "xmlSpace"),
   ("xmlns:xlink", "xmlnsXlink")]

/-- The JSX spelling of an attribute name. Names without one of their own keep theirs. -/
def jsxName (name : List Char) : List Char :=
  if name = "class".toList then "className".toList
  else match spellings.find? (·.1.toList == name) with
    | some (_, jsx) => jsx.toList
    | none => name

/-- Elements of HTML and SVG that never have children, sorted by name. -/
def voidElements : List String :=
  ["area", "base", "br", "circle", "col", "ellipse", "embed", "hr", "img", "input", "line", "link",
   "meta", "param", "path", "polygon", "polyline", "rect", "source", "stop", "track", "use", "wbr"]

/-- The lower-case form of a character where that form is an ASCII letter: the capitals of ASCII,
and the Kelvin sign. All other characters stay, as they are in no name it is compared with. -/
def foldCase (c : Char) : Char :=
  if 'A' ≤ c && c ≤ 'Z' then Char.ofNat (c.toNat + 32)
  else if c = '\u212A' then 'k'
  else c

/-- Whether elements of this name never have children; the case of letters does not matter. -/
def isVoid (tag : List Char) : Bool := voidElements.any (·.toList == tag.map foldCase)

end SvgComponent.Markup
