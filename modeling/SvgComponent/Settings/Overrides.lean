import SvgComponent.Settings.Options

/-!
# Overrides

Options that are set from elsewhere take the place of those they are laid over; the others stay.
-/

namespace SvgComponent.Settings

/-- Some options of a conversion. -/
structure Overrides where
  typescript : Option Bool := none
  memo : Option Bool := none
  passProps : Option Bool := none
  minify : Option Bool := none
  removeIds : Option Bool := none
  omitImports : Option Bool := none
  exportStyle : Option ExportStyle := none
  exportName : Option String := none
  quotes : Option Jsx.Quote := none
  optimizeSvg : Option Bool := none
  useFormatter : Option Bool := none
  deriving DecidableEq, Repr

/-- The options with some of them replaced. -/
def Options.override (o : Options) (v : Overrides) : Options :=
  { o with
    typescript := v.typescript.getD o.typescript
    memo := v.memo.getD o.memo
    passProps := v.passProps.getD o.passProps
    minify := v.minify.getD o.minify
    removeIds := v.removeIds.getD o.removeIds
    omitImports := v.omitImports.getD o.omitImports
    exportStyle := v.exportStyle.getD o.exportStyle
    exportName := v.exportName.or o.exportName
    quotes := v.quotes.getD o.quotes
    optimizeSvg := v.optimizeSvg.getD o.optimizeSvg
    useFormatter := v.useFormatter.getD o.useFormatter }

end SvgComponent.Settings
