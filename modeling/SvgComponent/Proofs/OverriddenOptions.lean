import SvgComponent.Proofs.SettingsFaults
import SvgComponent.Settings.Overrides

/-!
# Overrides as entries of settings

Options can be overridden after they were read, or the settings can be edited before they are read. Both come to
the same: settings that can be read can be read with any overrides entered, and give the options with these
overrides.

* `Overrides.fields`, `Overrides.entries`: overrides in the words of settings.
* `updated`: entries with others entered; `lookup?_updated`: what is then found under each name.
* `ReadAs`: settings read option by option; `readOptions_eq_ok`: reading them all is just that.
* `readOptions_updated`: overriding options and editing their settings agree.
-/

namespace SvgComponent.Settings

/-! ## Overrides in the words of settings -/

/-- The word for an export style. -/
def ExportStyle.word : ExportStyle → String
  | .const => "const"
  | .default => "default"
  | .named => "named"

/-- The word for a quotation mark. -/
def quoteWord : Jsx.Quote → String
  | .double => "double"
  | .single => "single"

/-- A name as a value; no name is null. -/
def nameValue : Option String → Value
  | none => .null
  | some name => .text name

/-- The options that overrides set, and the values that settings have for them. -/
def Overrides.fields (v : Overrides) : List (String × Option Value) :=
  [("typescript", v.typescript.map .bool), ("memo", v.memo.map .bool),
   ("pass_props", v.passProps.map .bool), ("minify", v.minify.map .bool),
   ("remove_ids", v.removeIds.map .bool), ("omit_imports", v.omitImports.map .bool),
   ("export_style", v.exportStyle.map fun style => .text style.word),
   ("export_name", v.exportName.map .text), ("quotes", v.quotes.map fun quote => .text (quoteWord quote)),
   ("optimize_svg", v.optimizeSvg.map .bool), ("use_formatter", v.useFormatter.map .bool)]

/-- The options of a conversion that can be overridden, and their values. -/
def Options.fields (o : Options) : List (String × Value) :=
  [("typescript", .bool o.typescript), ("memo", .bool o.memo), ("pass_props", .bool o.passProps),
   ("minify", .bool o.minify), ("remove_ids", .bool o.removeIds), ("omit_imports", .bool o.omitImports),
   ("export_style", .text o.exportStyle.word), ("export_name", nameValue o.exportName),
   ("quotes", .text (quoteWord o.quotes)), ("optimize_svg", .bool o.optimizeSvg),
   ("use_formatter", .bool o.useFormatter)]

/-- The fields that are set, as entries. -/
def setFields (fields : List (String × Option Value)) : Entries :=
  fields.filterMap fun field => field.2.map (.text field.1, ·)

/-- Overrides as entries of settings. -/
def Overrides.entries (v : Overrides) : Entries := setFields v.fields

/-- Entries with others entered into them, one after the other. -/
def updated (entries others : Entries) : Entries :=
  others.foldl (fun es e => setEntry es e.1 e.2) entries

/-! ## Entering values -/

section

variable (entries : Entries) (name : String) (value : Value)

theorem lookup?_setEntry_self : lookup? (setEntry entries (.text name) value) name = some value := by
  have hself : (Value.text name).sameKey (.text name) = true := sameKey_text.2 rfl
  unfold lookup? setEntry
  split
  · rename_i h
    -- the place of the key, which is there, holds the new value
    induction entries with
    | nil => cases h
    | cons e entries ih =>
      by_cases he : e.1.sameKey (.text name) = true
      · simp [he]
      · simp only [List.any_cons, he, Bool.false_or] at h
        simpa [he] using ih h
  · rename_i h
    simp only [List.any_eq_true, not_exists, not_and] at h
    rw [List.find?_append, List.find?_eq_none.2 h]
    simp [hself]

theorem lookup?_setEntry_ne {option : String} (hne : option ≠ name) :
    lookup? (setEntry entries (.text name) value) option = lookup? entries option := by
  have hkey : ∀ k : Value, k.sameKey (.text name) = true → k.sameKey (.text option) = false := by
    intro k hk
    rw [sameKey_text.1 hk]
    simpa [Value.sameKey] using Ne.symm hne
  unfold lookup? setEntry
  split
  · clear * - hkey
    induction entries with
    | nil => rfl
    | cons e entries ih =>
      by_cases he : e.1.sameKey (.text name) = true
      · simpa [he, hkey e.1 he] using ih
      · by_cases ho : e.1.sameKey (.text option) = true
        · simp [he, ho]
        · simpa [he, ho] using ih
  · rw [List.find?_append]
    simp [hkey (.text name) (sameKey_text.2 rfl)]

/-- A new key is the only one that can come in. -/
theorem AllNamed.setEntry {names : List String} {entries : Entries} (h : AllNamed names entries)
    {name : String} (hname : name ∈ names) (value : Value) :
    AllNamed names (setEntry entries (.text name) value) := by
  intro e he
  unfold Settings.setEntry at he
  split at he
  · obtain ⟨d, hd, rfl⟩ := List.mem_map.1 he
    split
    · exact h d hd
    · exact h d hd
  · rcases List.mem_append.1 he with he | he
    · exact h e he
    · rw [List.mem_singleton.1 he]
      exact ⟨name, hname, rfl⟩

end

/-! ## Entering fields -/

theorem setFields_cons_none (name : String) (fields : List (String × Option Value)) :
    setFields ((name, none) :: fields) = setFields fields := rfl

theorem setFields_cons_some (name : String) (value : Value) (fields : List (String × Option Value)) :
    setFields ((name, some value) :: fields) = (.text name, value) :: setFields fields := rfl

theorem lookup_eq_none_of_not_mem {α : Type} {fields : List (String × α)} {option : String}
    (h : option ∉ fields.map (·.1)) : fields.lookup option = none := by
  rw [List.lookup_eq_none_iff]
  intro p hp
  simp only [bne_iff_ne, ne_eq]
  rintro rfl
  exact h (List.mem_map_of_mem hp)

/-- **What is found once fields are entered**: the value that is set, or else what was there before. -/
theorem lookup?_updated {fields : List (String × Option Value)} (hd : (fields.map (·.1)).Nodup)
    (entries : Entries) (option : String) :
    lookup? (updated entries (setFields fields)) option =
      (fields.lookup option).join.or (lookup? entries option) := by
  induction fields generalizing entries with
  | nil => rfl
  | cons field fields ih =>
    obtain ⟨name, value⟩ := field
    rw [List.map_cons, List.nodup_cons] at hd
    by_cases ho : option = name
    · subst ho
      have hnone := lookup_eq_none_of_not_mem hd.1
      cases value with
      | none =>
        rw [setFields_cons_none, ih hd.2, hnone, List.lookup_cons_self]
        rfl
      | some value =>
        rw [setFields_cons_some, updated, List.foldl_cons, ← updated, ih hd.2, hnone,
          List.lookup_cons_self, lookup?_setEntry_self]
        rfl
    · have hskip : List.lookup option ((name, value) :: fields) = fields.lookup option := by
        rw [List.lookup_cons, beq_eq_false_iff_ne.2 ho]
      rw [hskip]
      cases value with
      | none => exact ih hd.2 entries
      | some value =>
        rw [setFields_cons_some, updated, List.foldl_cons, ← updated, ih hd.2,
          lookup?_setEntry_ne _ _ _ ho]

theorem AllNamed.updated {names : List String} {entries : Entries} (h : AllNamed names entries)
    {fields : List (String × Option Value)} (hfields : ∀ field ∈ fields, field.1 ∈ names) :
    AllNamed names (updated entries (setFields fields)) := by
  induction fields generalizing entries with
  | nil => exact h
  | cons field fields ih =>
    obtain ⟨name, value⟩ := field
    have hrest : ∀ field ∈ fields, field.1 ∈ names := fun f hf => hfields f (by simp [hf])
    cases value with
    | none => exact ih h hrest
    | some value => exact ih (h.setEntry (hfields (name, some value) (by simp)) value) hrest

/-! ## Settings read option by option -/

/-- The settings are read as these options. -/
structure ReadAs (entries : Entries) (o : Options) : Prop where
  keys : AllNamed optionNames entries
  typescript : readOr entries "typescript" true (readBool "typescript") = .ok o.typescript
  memo : readOr entries "memo" true (readBool "memo") = .ok o.memo
  passProps : readOr entries "pass_props" true (readBool "pass_props") = .ok o.passProps
  minify : readOr entries "minify" false (readBool "minify") = .ok o.minify
  removeIds : readOr entries "remove_ids" false (readBool "remove_ids") = .ok o.removeIds
  omitImports : readOr entries "omit_imports" false (readBool "omit_imports") = .ok o.omitImports
  optimizeSvg : readOr entries "optimize_svg" false (readBool "optimize_svg") = .ok o.optimizeSvg
  useFormatter : readOr entries "use_formatter" false (readBool "use_formatter") = .ok o.useFormatter
  exportStyle : readOr entries "export_style" .const (readChoice "export_style" ExportStyle.names) =
    .ok o.exportStyle
  exportName : readOr entries "export_name" none readName = .ok o.exportName
  quotes : readOr entries "quotes" .double (readChoice "quotes" quoteNames) = .ok o.quotes
  optimizer : readPart entries "optimizer" {} readOptimizer = .ok o.optimizer
  formatter : readPart entries "formatter" {} readFormatter = .ok o.formatter

theorem bind_eq_ok {ε α β : Type} {x : Except ε α} {f : α → Except ε β} {b : β} :
    x >>= f = .ok b ↔ ∃ a, x = .ok a ∧ f a = .ok b := by
  cases x with
  | error e => exact ⟨nofun, fun ⟨_, h, _⟩ => nomatch h⟩
  | ok a => exact ⟨fun h => ⟨a, rfl, h⟩, fun ⟨_, h, hf⟩ => by cases h; exact hf⟩

/-- **Settings are read option by option.** -/
theorem readOptions_eq_ok {entries : Entries} {o : Options} :
    readOptions entries = .ok o ↔ ReadAs entries o := by
  unfold readOptions
  constructor
  · intro h
    obtain ⟨_, hkeys, h⟩ := bind_eq_ok.1 h
    obtain ⟨_, htypescript, h⟩ := bind_eq_ok.1 h
    obtain ⟨_, hmemo, h⟩ := bind_eq_ok.1 h
    obtain ⟨_, hprops, h⟩ := bind_eq_ok.1 h
    obtain ⟨_, hminify, h⟩ := bind_eq_ok.1 h
    obtain ⟨_, hids, h⟩ := bind_eq_ok.1 h
    obtain ⟨_, himports, h⟩ := bind_eq_ok.1 h
    obtain ⟨_, hoptimize, h⟩ := bind_eq_ok.1 h
    obtain ⟨_, hformat, h⟩ := bind_eq_ok.1 h
    obtain ⟨_, hstyle, h⟩ := bind_eq_ok.1 h
    obtain ⟨_, hname, h⟩ := bind_eq_ok.1 h
    obtain ⟨_, hquotes, h⟩ := bind_eq_ok.1 h
    obtain ⟨_, hoptimizer, h⟩ := bind_eq_ok.1 h
    obtain ⟨_, hformatter, h⟩ := bind_eq_ok.1 h
    cases h
    exact ⟨checkKeys_eq_ok.1 hkeys, htypescript, hmemo, hprops, hminify, hids, himports, hoptimize, hformat,
      hstyle, hname, hquotes, hoptimizer, hformatter⟩
  · intro h
    simp only [checkKeys_eq_ok.2 h.keys, h.typescript, h.memo, h.passProps, h.minify, h.removeIds,
      h.omitImports, h.optimizeSvg, h.useFormatter, h.exportStyle, h.exportName, h.quotes, h.optimizer,
      h.formatter]
    rfl

/-! ## Overrides and edits agree -/

/-- The options that can be overridden. -/
def overridableNames : List String :=
  ["typescript", "memo", "pass_props", "minify", "remove_ids", "omit_imports", "export_style", "export_name",
   "quotes", "optimize_svg", "use_formatter"]

theorem map_fst_fields (v : Overrides) : v.fields.map (·.1) = overridableNames := rfl

theorem nodup_fields (v : Overrides) : (v.fields.map (·.1)).Nodup := by
  rw [map_fst_fields]
  decide

theorem fields_named (v : Overrides) : ∀ field ∈ v.fields, field.1 ∈ optionNames := by
  intro field hf
  have hname : field.1 ∈ overridableNames := by
    rw [← map_fst_fields v]
    exact List.mem_map_of_mem hf
  have hsubset : overridableNames ⊆ optionNames := by decide
  exact hsubset hname

section

variable {entries : Entries} {v : Overrides} {option : String}

/-- An option that can be overridden: the override is read, or else what was there before. -/
theorem readOr_updated {α : Type} {new : Option α} {toValue : α → Value} {default x : α}
    {read : Value → Except SettingsError α} (hold : readOr entries option default read = .ok x)
    (hlookup : v.fields.lookup option = some (new.map toValue)) (hread : ∀ a, read (toValue a) = .ok a) :
    readOr (updated entries v.entries) option default read = .ok (new.getD x) := by
  unfold readOr at hold ⊢
  rw [Overrides.entries, lookup?_updated (nodup_fields v), hlookup]
  cases new with
  | none => exact hold
  | some a => exact hread a

/-- A part of the settings, which cannot be overridden. -/
theorem readPart_updated {α : Type} {default : α} {read : Entries → Except SettingsError α}
    (hlookup : v.fields.lookup option = none) :
    readPart (updated entries v.entries) option default read = readPart entries option default read := by
  unfold readPart
  rw [Overrides.entries, lookup?_updated (nodup_fields v), hlookup]
  rfl

end

theorem readName_nameValue (name : Option String) : readName (nameValue name) = .ok name := by
  cases name <;> rfl

theorem map_text_eq (name : Option String) :
    name.map Value.text = (name.map some).map nameValue := by
  cases name <;> rfl

theorem getD_map_some {α : Type} (new old : Option α) : (new.map some).getD old = new.or old := by
  cases new <;> rfl

/-- Overriding options replaces the fields that are set, and keeps the others. -/
theorem fields_override (o : Options) (v : Overrides) :
    (o.override v).fields =
      o.fields.map fun field => (field.1, (v.fields.lookup field.1).join.getD field.2) := by
  have hname : nameValue (v.exportName.or o.exportName) =
      (v.exportName.map Value.text).getD (nameValue o.exportName) := by
    rw [map_text_eq, Option.getD_map, getD_map_some]
  simp [Options.fields, Options.override, Overrides.fields, List.lookup_cons, hname]

/-- **Overriding options and editing their settings agree.** Settings that are read as some options can be read
with any overrides entered, and are then read as the options with these overrides: each field is the one that is
set, or else as before, and the parts for the tools are as before. -/
theorem readOptions_updated {entries : Entries} {o : Options} (h : readOptions entries = .ok o)
    (v : Overrides) :
    readOptions (updated entries v.entries) = .ok (o.override v) ∧
      (o.override v).fields =
        o.fields.map (fun field => (field.1, (v.fields.lookup field.1).join.getD field.2)) ∧
      (o.override v).optimizer = o.optimizer ∧ (o.override v).formatter = o.formatter := by
  refine ⟨?_, fields_override o v, rfl, rfl⟩
  have hold := readOptions_eq_ok.1 h
  have htruth : ∀ option b, readBool option (.bool b) = .ok b := fun _ _ => rfl
  have hstyle : ∀ style : ExportStyle,
      readChoice "export_style" ExportStyle.names (.text style.word) = .ok style := by
    intro style
    cases style <;> rfl
  have hquote : ∀ quote, readChoice "quotes" quoteNames (.text (quoteWord quote)) = .ok quote := by
    intro quote
    cases quote <;> rfl
  have hlookup : v.fields.lookup "export_name" = some ((v.exportName.map some).map nameValue) := by
    rw [← map_text_eq]
    rfl
  have hname := readOr_updated hold.exportName hlookup readName_nameValue
  rw [getD_map_some] at hname
  exact readOptions_eq_ok.2
    { keys := hold.keys.updated (fields_named v)
      typescript := readOr_updated hold.typescript rfl (htruth _)
      memo := readOr_updated hold.memo rfl (htruth _)
      passProps := readOr_updated hold.passProps rfl (htruth _)
      minify := readOr_updated hold.minify rfl (htruth _)
      removeIds := readOr_updated hold.removeIds rfl (htruth _)
      omitImports := readOr_updated hold.omitImports rfl (htruth _)
      optimizeSvg := readOr_updated hold.optimizeSvg rfl (htruth _)
      useFormatter := readOr_updated hold.useFormatter rfl (htruth _)
      exportStyle := readOr_updated hold.exportStyle rfl hstyle
      exportName := hname
      quotes := readOr_updated hold.quotes rfl hquote
      optimizer := (readPart_updated rfl).trans hold.optimizer
      formatter := (readPart_updated rfl).trans hold.formatter }

/-- An option that is there and two that are not, one of them an empty name, beside a part for a tool. -/
theorem readOptions_updated_empty :
    readOptions [(.text "minify", .bool true), (.text "optimizer", .mapping [(.text "node", .text "bun")])] =
        .ok { minify := true, optimizer := { node := "bun" } } ∧
      readOptions [(.text "minify", .bool false), (.text "optimizer", .mapping [(.text "node", .text "bun")]),
          (.text "export_name", .text ""), (.text "quotes", .text "single")] =
        .ok { exportName := some "", quotes := .single, optimizer := { node := "bun" } } := by
  have h : readOptions [(.text "minify", .bool true),
      (.text "optimizer", .mapping [(.text "node", .text "bun")])] =
      .ok { minify := true, optimizer := { node := "bun" } } := rfl
  let v : Overrides := { minify := some false, exportName := some "", quotes := some .single }
  exact ⟨h, (readOptions_updated h v).1⟩

end SvgComponent.Settings
