import SvgComponent.Proofs.WrittenText
import SvgComponent.Settings.Read

/-!
# Faults in settings

Reading settings fails at the first fault, in the order in which keys and options are looked at. A fault is
foreseen if it is reported as an invalid option or value; some values are of a type or a size that no reader
handles, and reading stumbles over them.

* `faultOf`: how far the error of a reader was foreseen.
* `OptionRule`: an option and the fault that each value has there; `partFault` is the first fault of entries.
* `optimizerRules`, `formatterRules`, `optionRules`: the rules of each part, in the order of reading.
* `faultOf_readOptions`: reading fails with the first fault by these rules.
* `Stumbles`, `foreseen_iff`: errors are foreseen exactly if no unhandled value comes first.
-/

namespace SvgComponent.Settings

/-! ## Faults of single values -/

/-- How far an error was foreseen, if there is one. -/
def faultOf {α : Type} : Except SettingsError α → Option Category
  | .ok _ => none
  | .error e => some e.category

/-- Truth values have to be one. -/
def truthFault : Value → Option Category
  | .bool _ => none
  | _ => some .invalid

/-- Choices have to be one of the words. -/
def choiceFault (words : List String) : Value → Option Category
  | .text s => if s ∈ words then none else some .invalid
  | _ => some .invalid

/-- Anything that can be shown is text. -/
def textFault (v : Value) : Option Category := if v.isShowable then none else some .invalid

/-- A name may be null. -/
def nameFault : Value → Option Category
  | .null => none
  | v => textFault v

/-- Integers are not made of null, days and times, lists and mappings, nor of an infinite number. -/
def integerFault : Value → Option Category
  | .bool _ => none
  | .int _ => none
  | .float x =>
    match Number.Parts.of x with
    | .nan => some .invalid
    | .infinite _ => some .outOfRange
    | .finite _ _ _ => none
  | .text s => if (Number.readInt s.toList).isOk then none else some .invalid
  | _ => some .wrongType

/-- The least integer that rounds to no finite number. -/
def floatLimit : Nat := Nat.pow 2 1024 - Nat.pow 2 970

/-- Numbers are not made of null, days and times, lists and mappings, nor of an integer that rounds to no
finite number. -/
def numberFault : Value → Option Category
  | .bool _ => none
  | .int n => if n.natAbs < floatLimit then none else some .outOfRange
  | .float _ => none
  | .text s => if (Number.readFloat? s.toList).isSome then none else some .invalid
  | _ => some .wrongType

/-- A command is made of text, a list or a mapping, and of nothing else that is more than nothing: not of truth,
of a number that is not zero, or of a day or time. -/
def commandFault : Value → Option Category
  | .text s => if Text.isBlankText s.toList then some .invalid else none
  | .list items => if items.isEmpty then some .invalid else items.findSome? textFault
  | .mapping entries => if entries.isEmpty then some .invalid else entries.findSome? (textFault ·.1)
  | v => if v.isNothing then some .invalid else some .wrongType

/-! ## Faults of entries -/

/-- Every key is text. -/
def AllText (entries : Entries) : Prop := ∀ e ∈ entries, e.1.isText = true

/-- Every key is one of the names. -/
def AllNamed (names : List String) (entries : Entries) : Prop :=
  ∀ e ∈ entries, ∃ name ∈ names, e.1 = .text name

theorem sameKey_text {k : Value} {name : String} : k.sameKey (.text name) = true ↔ k = .text name := by
  cases k <;> simp [Value.sameKey, Value.asInt?]

instance (entries : Entries) : Decidable (AllText entries) :=
  inferInstanceAs (Decidable (∀ e ∈ entries, e.1.isText = true))

instance (names : List String) (entries : Entries) : Decidable (AllNamed names entries) :=
  decidable_of_iff (∀ e ∈ entries, ∃ name ∈ names, e.1.sameKey (.text name) = true)
    (by simp only [sameKey_text, AllNamed])

/-- The fault of keys: that one is not text, or else that one is no option's name. -/
def keysFault (names : List String) (entries : Entries) : Option Category :=
  if AllText entries then if AllNamed names entries then none else some .invalid
  else some .wrongType

/-- An option, and the fault that each value has there. -/
structure OptionRule where
  name : String
  fault : Value → Option Category

/-- The fault of the entry of an option, if there is one. -/
def OptionRule.entryFault (r : OptionRule) (entries : Entries) : Option Category :=
  lookup? entries r.name |>.bind r.fault

/-- The first fault of entries by the rules of a part of the settings: that of their keys, or else of the first
option with one. -/
def partFault (rules : List OptionRule) (entries : Entries) : Option Category :=
  (keysFault (rules.map OptionRule.name) entries).or (rules.findSome? (·.entryFault entries))

/-- A part of the settings has to be a mapping or null. -/
def sectionFault (rules : List OptionRule) : Value → Option Category
  | .null => none
  | .mapping entries => partFault rules entries
  | _ => some .invalid

/-- The parameters of a plugin are a mapping, if there are any. -/
def paramsFault : Value → Option Category
  | .null => none
  | .mapping _ => none
  | _ => some .invalid

/-- What the mapping of a plugin can hold, in the order of reading. -/
def pluginRules : List OptionRule := [⟨"params", paramsFault⟩, ⟨"name", textFault⟩]

/-- A plugin is a name, or a mapping that has one. -/
def pluginFault : Value → Option Category
  | .text _ => none
  | .mapping entries =>
    (keysFault (pluginRules.map OptionRule.name) entries).or <|
      if lookup? entries "name" |>.isNone then some .invalid
      else pluginRules.findSome? (·.entryFault entries)
  | _ => some .invalid

/-- Plugins are a list. -/
def pluginsFault : Value → Option Category
  | .list items => items.findSome? pluginFault
  | _ => some .invalid

/-! ## Rules -/

/-- The options of the optimizer, in the order of reading. -/
def optimizerRules : List OptionRule :=
  [⟨"plugins", pluginsFault⟩, ⟨"multipass", truthFault⟩, ⟨"float_precision", integerFault⟩,
   ⟨"node", textFault⟩, ⟨"timeout", numberFault⟩]

/-- The options of the formatter, in the order of reading. -/
def formatterRules : List OptionRule :=
  [⟨"print_width", integerFault⟩, ⟨"tab_width", integerFault⟩, ⟨"use_tabs", truthFault⟩,
   ⟨"semicolons", truthFault⟩, ⟨"quote_style", choiceFault ["double", "single"]⟩,
   ⟨"trailing_comma", choiceFault ["none", "minimal", "all", "es5"]⟩,
   ⟨"bracket_spacing", truthFault⟩, ⟨"arrow_parens", choiceFault ["avoid", "always"]⟩,
   ⟨"command", commandFault⟩, ⟨"timeout", numberFault⟩]

/-- The options of a conversion, in the order of reading. -/
def optionRules : List OptionRule :=
  [⟨"typescript", truthFault⟩, ⟨"memo", truthFault⟩, ⟨"pass_props", truthFault⟩,
   ⟨"minify", truthFault⟩, ⟨"remove_ids", truthFault⟩, ⟨"omit_imports", truthFault⟩,
   ⟨"optimize_svg", truthFault⟩, ⟨"use_formatter", truthFault⟩,
   ⟨"export_style", choiceFault ["const", "default", "named"]⟩, ⟨"export_name", nameFault⟩,
   ⟨"quotes", choiceFault ["double", "single"]⟩, ⟨"optimizer", sectionFault optimizerRules⟩,
   ⟨"formatter", sectionFault formatterRules⟩]

/-! ## Readers of values -/

theorem category_showing {v : Value} {e : SettingsError} (h : e.category = .invalid) :
    (showing v e).category = .invalid := by
  unfold showing
  split
  · exact h
  · rfl

theorem faultOf_readAsText (v : Value) : faultOf (readAsText v) = textFault v := by
  unfold readAsText textFault
  split <;> rfl

theorem faultOf_readBool (option : String) (v : Value) : faultOf (readBool option v) = truthFault v := by
  have h : ∀ w, faultOf (.error (showing w (.notBool option w)) : Except SettingsError Bool) =
      some .invalid := by
    intro w
    rw [faultOf, category_showing rfl]
  cases v with
  | bool b => rfl
  | _ => exact h _

theorem faultOf_readChoice {α : Type} (option : String) (choices : List (String × α)) (v : Value) :
    faultOf (readChoice option choices v) = choiceFault (choices.map (·.1)) v := by
  have h : ∀ w, faultOf (.error (showing w (.invalidChoice option w (choices.map (·.1)))) :
      Except SettingsError α) = some .invalid := by
    intro w
    rw [faultOf, category_showing rfl]
  cases v with
  | text s =>
    simp only [readChoice, choiceFault]
    cases hs : choices.lookup s with
    | none =>
      have hn : s ∉ choices.map (·.1) := by
        intro hm
        obtain ⟨p, hp, rfl⟩ := List.mem_map.1 hm
        simpa using List.lookup_eq_none_iff.1 hs p hp
      rw [if_neg hn]
      exact h _
    | some a =>
      have hm : s ∈ choices.map (·.1) := by
        obtain ⟨p, hp, hsp⟩ := List.lookup_isSome_iff.1 (by rw [hs]; rfl)
        exact List.mem_map.2 ⟨p, hp, (eq_of_beq hsp).symm⟩
      rw [if_pos hm]
      rfl
  | _ => exact h _

theorem readTrailingComma_of_ne {v : Value} (h : v ≠ .text "es5") :
    readTrailingComma v = readChoice "trailing_comma" TrailingComma.names v := by
  unfold readTrailingComma
  split
  · exact absurd rfl h
  · rfl

theorem faultOf_readTrailingComma (v : Value) :
    faultOf (readTrailingComma v) = choiceFault ["none", "minimal", "all", "es5"] v := by
  by_cases h : v = .text "es5"
  · subst h
    rfl
  · rw [readTrailingComma_of_ne h, faultOf_readChoice]
    cases v with
    | text s =>
      have hs : s ≠ "es5" := fun e => h (by rw [e])
      simp [choiceFault, TrailingComma.names, hs]
    | _ => rfl

theorem faultOf_map {α β : Type} (f : α → β) (x : Except SettingsError α) :
    faultOf (f <$> x) = faultOf x := by
  cases x <;> rfl

theorem faultOf_readName (v : Value) : faultOf (readName v) = nameFault v := by
  cases v with
  | null => rfl
  | _ => exact (faultOf_map _ _).trans (faultOf_readAsText _)

theorem faultOf_readInteger (v : Value) : faultOf (readInteger v) = integerFault v := by
  cases v with
  | float x =>
    simp only [readInteger, integerFault, Number.truncate]
    cases Number.Parts.of x <;> rfl
  | text s =>
    simp only [readInteger, integerFault]
    cases Number.readInt s.toList with
    | ok n => rfl
    | error e => cases e <;> rfl
  | _ => rfl

theorem isSome_ofInt? (n : Int) : (Number.ofInt? n).isSome = decide (n.natAbs < floatLimit) := by
  unfold Number.ofInt? floatLimit
  generalize Nat.pow 2 1024 - Nat.pow 2 970 = limit
  by_cases h : n.natAbs < limit
  · simp [h]
  · simp [h]

theorem readNumber_int (n : Int) :
    readNumber (.int n) = (Number.ofInt? n).elim (.error .numberTooLarge) .ok := by
  unfold readNumber
  dsimp only
  generalize Number.ofInt? n = x
  cases x <;> rfl

theorem faultOf_readNumber (v : Value) : faultOf (readNumber v) = numberFault v := by
  cases v with
  | int n =>
    have h := isSome_ofInt? n
    rw [readNumber_int]
    unfold numberFault
    dsimp only
    cases hn : Number.ofInt? n with
    | none =>
      rw [hn] at h
      rw [if_neg (of_decide_eq_false h.symm)]
      rfl
    | some x =>
      rw [hn] at h
      rw [if_pos (of_decide_eq_true h.symm)]
      rfl
  | text s =>
    unfold readNumber numberFault
    dsimp only
    cases Number.readFloat? s.toList <;> rfl
  | _ => rfl

/-- Items are read one after the other, up to the first fault. -/
theorem faultOf_mapM {α β : Type} {read : α → Except SettingsError β} {fault : α → Option Category}
    (h : ∀ a, faultOf (read a) = fault a) (items : List α) :
    faultOf (items.mapM read) = items.findSome? fault := by
  induction items with
  | nil => rfl
  | cons a items ih =>
    rw [List.mapM_cons, List.findSome?_cons, ← h a]
    cases read a with
    | error e => rfl
    | ok b =>
      rw [← ih]
      cases items.mapM read <;> rfl

theorem faultOf_readCommand (v : Value) : faultOf (readCommand v) = commandFault v := by
  cases v with
  | text s =>
    simp only [readCommand, commandFault]
    cases hw : Text.words s.toList with
    | nil => rw [if_pos (Text.words_eq_nil.1 hw)]; rfl
    | cons w ws =>
      have hb : ¬ Text.isBlankText s.toList = true := by
        intro hb
        rw [Text.words_eq_nil.2 hb] at hw
        cases hw
      rw [if_neg hb]
      rfl
  | list items =>
    simp only [readCommand, commandFault]
    split
    · rfl
    · exact faultOf_mapM faultOf_readAsText items
  | mapping entries =>
    simp only [readCommand, commandFault]
    split
    · rfl
    · exact faultOf_mapM (fun e => faultOf_readAsText e.1) entries
  | _ =>
    simp only [readCommand, commandFault]
    split <;> rfl

/-! ## Readers of parts -/

theorem faultOf_bind {α β : Type} {x : Except SettingsError α} {f : α → Except SettingsError β}
    {later : Option Category} (hf : ∀ a, faultOf (f a) = later) :
    faultOf (x >>= f) = (faultOf x).or later := by
  cases x with
  | error e => rfl
  | ok a => exact hf a

theorem allText_iff {entries : Entries} :
    AllText entries ↔ (entries.map (·.1)).filter (fun k => !k.isText) = [] := by
  simp [AllText]

theorem AllNamed.allText {names : List String} {entries : Entries} (h : AllNamed names entries) :
    AllText entries := by
  intro e he
  obtain ⟨name, -, hk⟩ := h e he
  rw [hk]
  rfl

/-- All that a check of keys can come to. -/
theorem checkKeys_cases (part : String) (names : List String) (entries : Entries) :
    (¬ AllText entries ∧ ∃ e, checkKeys part names entries = .error e ∧ e.category = .wrongType) ∨
      (AllNamed names entries ∧ checkKeys part names entries = .ok ()) ∨
      (AllText entries ∧ ¬ AllNamed names entries ∧
        ∃ found, checkKeys part names entries = .error (.unknownOptions part found names)) := by
  have hother : ∀ {key rest}, (entries.map (·.1)).filter (fun k => !k.isText) = key :: rest →
      ¬ AllText entries := by
    intro key rest hothers h
    rw [allText_iff.1 h] at hothers
    cases hothers
  unfold checkKeys
  dsimp only
  split
  · rename_i hothers hunknown
    refine .inr (.inl ⟨?_, rfl⟩)
    intro e he
    have htext := allText_iff.2 hothers e he
    have hlisted := List.filterMap_eq_nil_iff.1 hunknown e.1 (List.mem_map_of_mem he)
    cases hk : e.1 with
    | text s => exact ⟨s, by simpa [hk] using hlisted, rfl⟩
    | _ => rw [hk] at htext; cases htext
  · rename_i hothers hunknown
    refine .inr (.inr ⟨allText_iff.2 hothers, ?_, _, rfl⟩)
    intro hnamed
    refine hunknown (List.filterMap_eq_nil_iff.2 ?_)
    intro k hk
    obtain ⟨e, he, rfl⟩ := List.mem_map.1 hk
    obtain ⟨name, hname, heq⟩ := hnamed e he
    simp [heq, hname]
  · rename_i hothers _
    exact .inl ⟨hother hothers, _, rfl, rfl⟩
  · rename_i hothers _
    exact .inl ⟨hother hothers, _, rfl, rfl⟩

theorem checkKeys_eq_ok {part : String} {names : List String} {entries : Entries} :
    checkKeys part names entries = .ok () ↔ AllNamed names entries := by
  rcases checkKeys_cases part names entries with ⟨hn, e, he, -⟩ | ⟨h, hok⟩ | ⟨-, hn, found, he⟩
  · rw [he]
    exact ⟨nofun, fun h => absurd h.allText hn⟩
  · exact ⟨fun _ => h, fun _ => hok⟩
  · rw [he]
    exact ⟨nofun, fun h => absurd h hn⟩

/-- Keys are refused as the rules for keys say, whatever order the names come in. -/
theorem faultOf_checkKeys (part : String) {names names' : List String} (hnames : names.Perm names')
    (entries : Entries) : faultOf (checkKeys part names entries) = keysFault names' entries := by
  have hiff : AllNamed names' entries ↔ AllNamed names entries := by
    simp only [AllNamed, hnames.mem_iff]
  unfold keysFault
  simp only [hiff]
  rcases checkKeys_cases part names entries with ⟨hn, e, he, hc⟩ | ⟨h, hok⟩ | ⟨ht, hn, found, he⟩
  · rw [if_neg hn, he, faultOf, hc]
  · rw [if_pos h.allText, if_pos h, hok, faultOf]
  · rw [if_pos ht, if_neg hn, he]
    rfl

/-- The keys of a part come first. -/
theorem faultOf_checkKeys_bind {α : Type} {part : String} {names : List String} {rules : List OptionRule}
    {entries : Entries} {f : Unit → Except SettingsError α} (hnames : names.Perm (rules.map OptionRule.name))
    (hf : ∀ u, faultOf (f u) = rules.findSome? (·.entryFault entries)) :
    faultOf (checkKeys part names entries >>= f) = partFault rules entries := by
  rw [faultOf_bind hf, faultOf_checkKeys part hnames, partFault]

/-- One option, and the options behind it. -/
theorem faultOf_readOr_bind {α β : Type} {entries : Entries} (rule : OptionRule) {rules : List OptionRule}
    {default : α} {read : Value → Except SettingsError α} {f : α → Except SettingsError β}
    (hread : ∀ v, faultOf (read v) = rule.fault v)
    (hf : ∀ a, faultOf (f a) = rules.findSome? (·.entryFault entries)) :
    faultOf (readOr entries rule.name default read >>= f) =
      (rule :: rules).findSome? (·.entryFault entries) := by
  rw [faultOf_bind hf, List.findSome?_cons, OptionRule.entryFault, readOr]
  cases lookup? entries rule.name with
  | none => simp [faultOf]
  | some v =>
    rw [Option.bind_some, hread v]
    cases rule.fault v <;> rfl

/-- One part, and the options behind it. -/
theorem faultOf_readPart_bind {α β : Type} {entries : Entries} {part : String} {inner rules : List OptionRule}
    {default : α} {read : Entries → Except SettingsError α} {f : α → Except SettingsError β}
    (hread : ∀ es, faultOf (read es) = partFault inner es)
    (hf : ∀ a, faultOf (f a) = rules.findSome? (·.entryFault entries)) :
    faultOf (readPart entries part default read >>= f) =
      (⟨part, sectionFault inner⟩ :: rules).findSome? (·.entryFault entries) := by
  rw [faultOf_bind hf, List.findSome?_cons, OptionRule.entryFault, readPart]
  cases lookup? entries part with
  | none => simp [faultOf]
  | some v =>
    cases v with
    | mapping es =>
      simp only [Option.bind_some, sectionFault, hread es]
      cases partFault inner es <;> rfl
    | _ => rfl

theorem faultOf_readPlugin (v : Value) : faultOf (readPlugin v) = pluginFault v := by
  cases v with
  | text name => rfl
  | mapping entries =>
    have hnames : ["name", "params"].Perm (pluginRules.map OptionRule.name) := by decide
    simp only [readPlugin, pluginFault, ← faultOf_checkKeys "optimizer plugin" hnames]
    refine faultOf_bind ?_
    intro _
    simp only [pluginRules, List.findSome?_cons, List.findSome?_nil, OptionRule.entryFault]
    cases lookup? entries "name" with
    | none => rfl
    | some name =>
      simp only [Option.isNone_some, Bool.false_eq_true, if_false, Option.bind_some, ← faultOf_readAsText]
      cases lookup? entries "params" with
      | none => cases readAsText name <;> rfl
      | some params =>
        cases params with
        | null => cases readAsText name <;> rfl
        | mapping ps => cases readAsText name <;> rfl
        | _ => exact congrArg some (category_showing rfl)
  | _ =>
    simp only [readPlugin, pluginFault, faultOf]
    rw [category_showing rfl]

theorem faultOf_readPlugins (v : Value) : faultOf (readPlugins v) = pluginsFault v := by
  cases v with
  | list items => exact faultOf_mapM faultOf_readPlugin items
  | _ => rfl

theorem faultOf_readOptimizer (entries : Entries) :
    faultOf (readOptimizer entries) = partFault optimizerRules entries := by
  unfold readOptimizer
  refine faultOf_checkKeys_bind (by decide) fun _ => ?_
  refine faultOf_readOr_bind ⟨"plugins", _⟩ faultOf_readPlugins fun _ => ?_
  refine faultOf_readOr_bind ⟨"multipass", _⟩ (faultOf_readBool _) fun _ => ?_
  refine faultOf_readOr_bind ⟨"float_precision", _⟩
    (fun v => (faultOf_map _ _).trans (faultOf_readInteger v)) fun _ => ?_
  refine faultOf_readOr_bind ⟨"node", _⟩ faultOf_readAsText fun _ => ?_
  exact faultOf_readOr_bind ⟨"timeout", _⟩ faultOf_readNumber fun _ => rfl

theorem faultOf_readFormatter (entries : Entries) :
    faultOf (readFormatter entries) = partFault formatterRules entries := by
  unfold readFormatter
  refine faultOf_checkKeys_bind (by decide) fun _ => ?_
  refine faultOf_readOr_bind ⟨"print_width", _⟩ faultOf_readInteger fun _ => ?_
  refine faultOf_readOr_bind ⟨"tab_width", _⟩ faultOf_readInteger fun _ => ?_
  refine faultOf_readOr_bind ⟨"use_tabs", _⟩ (faultOf_readBool _) fun _ => ?_
  refine faultOf_readOr_bind ⟨"semicolons", _⟩ (faultOf_readBool _) fun _ => ?_
  refine faultOf_readOr_bind ⟨"quote_style", _⟩ (faultOf_readChoice _ _) fun _ => ?_
  refine faultOf_readOr_bind ⟨"trailing_comma", _⟩ faultOf_readTrailingComma fun _ => ?_
  refine faultOf_readOr_bind ⟨"bracket_spacing", _⟩ (faultOf_readBool _) fun _ => ?_
  refine faultOf_readOr_bind ⟨"arrow_parens", _⟩ (faultOf_readChoice _ _) fun _ => ?_
  refine faultOf_readOr_bind ⟨"command", _⟩ faultOf_readCommand fun _ => ?_
  exact faultOf_readOr_bind ⟨"timeout", _⟩ faultOf_readNumber fun _ => rfl

/-- **Reading settings fails with their first fault.** -/
theorem faultOf_readOptions (entries : Entries) :
    faultOf (readOptions entries) = partFault optionRules entries := by
  unfold readOptions
  refine faultOf_checkKeys_bind (by decide) fun _ => ?_
  refine faultOf_readOr_bind ⟨"typescript", _⟩ (faultOf_readBool _) fun _ => ?_
  refine faultOf_readOr_bind ⟨"memo", _⟩ (faultOf_readBool _) fun _ => ?_
  refine faultOf_readOr_bind ⟨"pass_props", _⟩ (faultOf_readBool _) fun _ => ?_
  refine faultOf_readOr_bind ⟨"minify", _⟩ (faultOf_readBool _) fun _ => ?_
  refine faultOf_readOr_bind ⟨"remove_ids", _⟩ (faultOf_readBool _) fun _ => ?_
  refine faultOf_readOr_bind ⟨"omit_imports", _⟩ (faultOf_readBool _) fun _ => ?_
  refine faultOf_readOr_bind ⟨"optimize_svg", _⟩ (faultOf_readBool _) fun _ => ?_
  refine faultOf_readOr_bind ⟨"use_formatter", _⟩ (faultOf_readBool _) fun _ => ?_
  refine faultOf_readOr_bind ⟨"export_style", _⟩ (faultOf_readChoice _ _) fun _ => ?_
  refine faultOf_readOr_bind ⟨"export_name", _⟩ faultOf_readName fun _ => ?_
  refine faultOf_readOr_bind ⟨"quotes", _⟩ (faultOf_readChoice _ _) fun _ => ?_
  refine faultOf_readPart_bind faultOf_readOptimizer fun _ => ?_
  exact faultOf_readPart_bind faultOf_readFormatter fun _ => rfl

/-! ## Foreseen errors -/

/-- Entries that are options, or that are refused as invalid. -/
def Foreseen (entries : Entries) : Prop :=
  (∃ o, readOptions entries = .ok o) ∨ ∃ e, readOptions entries = .error e ∧ e.category = .invalid

/-- Reading stumbles over a key that is not text, or over the first option that has a fault, if its value is of
a type or size that is not handled there. -/
def Stumbles (rules : List OptionRule) (entries : Entries) : Prop :=
  ¬ AllText entries ∨
    AllNamed (rules.map OptionRule.name) entries ∧
      ∃ before rule after value fault,
        rules = before ++ rule :: after ∧ lookup? entries rule.name = some value ∧
          rule.fault value = some fault ∧ fault ≠ .invalid ∧
          ∀ r ∈ before, ∀ v, lookup? entries r.name = some v → r.fault v = none

theorem entryFault_eq_none {r : OptionRule} {entries : Entries} :
    r.entryFault entries = none ↔ ∀ v, lookup? entries r.name = some v → r.fault v = none := by
  unfold OptionRule.entryFault
  cases lookup? entries r.name <;> simp

theorem entryFault_eq_some {r : OptionRule} {entries : Entries} {fault : Category} :
    r.entryFault entries = some fault ↔
      ∃ v, lookup? entries r.name = some v ∧ r.fault v = some fault := by
  unfold OptionRule.entryFault
  cases lookup? entries r.name <;> simp

/-- Reading stumbles exactly if the first fault is not one of an invalid option or value. -/
theorem stumbles_iff {rules : List OptionRule} {entries : Entries} :
    Stumbles rules entries ↔ ∃ fault, partFault rules entries = some fault ∧ fault ≠ .invalid := by
  unfold Stumbles partFault keysFault
  by_cases ht : AllText entries
  · by_cases hn : AllNamed (rules.map OptionRule.name) entries
    · simp only [ht, hn, not_true_eq_false, false_or, true_and, if_true, Option.none_or,
        List.findSome?_eq_some_iff, entryFault_eq_some, entryFault_eq_none]
      constructor
      · rintro ⟨before, rule, after, value, fault, hrules, hentry, hfault, hne, hbefore⟩
        exact ⟨fault, ⟨before, rule, after, hrules, ⟨value, hentry, hfault⟩, hbefore⟩, hne⟩
      · rintro ⟨fault, ⟨before, rule, after, hrules, ⟨value, hentry, hfault⟩, hbefore⟩, hne⟩
        exact ⟨before, rule, after, value, fault, hrules, hentry, hfault, hne, hbefore⟩
    · simp [ht, hn]
  · simp [ht]

/-- **Errors in settings are foreseen** exactly if reading does not stumble. -/
theorem foreseen_iff (entries : Entries) : Foreseen entries ↔ ¬ Stumbles optionRules entries := by
  rw [stumbles_iff, ← faultOf_readOptions, Foreseen]
  cases h : readOptions entries with
  | ok o => simp [faultOf]
  | error e => simp [faultOf]

/-- A float precision of null is of a type that is not handled. -/
theorem not_foreseen_null :
    readOptions [(.text "optimizer", .mapping [(.text "float_precision", .null)])] =
        .error (.noInteger .null) ∧
      ¬ Foreseen [(.text "optimizer", .mapping [(.text "float_precision", .null)])] := by
  have h : readOptions [(.text "optimizer", .mapping [(.text "float_precision", .null)])] =
      .error (.noInteger .null) := by
    rfl
  refine ⟨h, ?_⟩
  rintro (⟨o, ho⟩ | ⟨e, he, hc⟩)
  · rw [h] at ho
    cases ho
  · rw [h] at he
    cases he
    cases hc

end SvgComponent.Settings
