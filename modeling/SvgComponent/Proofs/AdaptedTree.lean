import Mathlib.Data.List.Induction
import SvgComponent.Proofs.ComponentSource

/-!
# What adapting does to a tree, and what it leaves

Adapting a tree changes the attribute lists of its elements and nothing else (`Node.SameBut`). The list
of an element is determined by the list it had: the JSX names in the order in which they first occur,
each with the value of the first attribute that has it, perhaps without the identifier (`Spelled`). A
second time changes nothing, since no JSX name is spelled otherwise in JSX (`jsxName_jsxName`), and
identifiers can be dropped before or after the renaming, since no other name becomes `id`
(`jsxName_eq_idName_iff`).

* `mapAttributes_mapAttributes`, `elements_mapAttributes`, `sameBut_mapAttributes`: changing the
  attribute lists of all elements.
* `spelled_adaptAttributes`: what becomes of one list.
-/

namespace SvgComponent.Markup

open Text

/-! ## Trees that differ in their attribute lists -/

mutual

/-- The same node, but for the attribute lists of its elements, which are related by `r`. -/
def Node.SameBut (r : List Attribute → List Attribute → Prop) : Node → Node → Prop
  | .element tag before children, .element tag' after children' =>
    tag = tag' ∧ r before after ∧ Node.AllSameBut r children children'
  | .text s, .text t => s = t
  | .comment s, .comment t => s = t
  | _, _ => False

/-- As many siblings, pairwise the same but for attribute lists. -/
def Node.AllSameBut (r : List Attribute → List Attribute → Prop) : List Node → List Node → Prop
  | [], [] => True
  | n :: ns, m :: ms => n.SameBut r m ∧ Node.AllSameBut r ns ms
  | _, _ => False

end

section
variable (f g : List Attribute → List Attribute)

theorem allSameBut_mapAttributesIn {r : List Attribute → List Attribute → Prop}
    (h : ∀ as, r as (f as)) : ∀ ns : List Node, Node.AllSameBut r ns (Node.mapAttributesIn f ns)
  | [] => trivial
  | .element _ attributes children :: ns =>
    ⟨⟨rfl, h attributes, allSameBut_mapAttributesIn h children⟩, allSameBut_mapAttributesIn h ns⟩
  | .text _ :: ns => ⟨rfl, allSameBut_mapAttributesIn h ns⟩
  | .comment _ :: ns => ⟨rfl, allSameBut_mapAttributesIn h ns⟩

/-- **Changing attribute lists changes nothing else.** -/
theorem sameBut_mapAttributes {r : List Attribute → List Attribute → Prop} (h : ∀ as, r as (f as))
    (e : Element) : e.node.SameBut r (e.mapAttributes f).node :=
  ⟨rfl, h e.attributes, allSameBut_mapAttributesIn f h e.children⟩

theorem mapAttributesIn_mapAttributesIn :
    ∀ ns : List Node, Node.mapAttributesIn g (Node.mapAttributesIn f ns) =
      Node.mapAttributesIn (fun as => g (f as)) ns
  | [] => rfl
  | .element tag attributes children :: ns => by
    simp only [Node.mapAttributesIn, Node.mapAttributes, mapAttributesIn_mapAttributesIn children,
      mapAttributesIn_mapAttributesIn ns]
  | .text s :: ns => by
    simp only [Node.mapAttributesIn, Node.mapAttributes, mapAttributesIn_mapAttributesIn ns]
  | .comment body :: ns => by
    simp only [Node.mapAttributesIn, Node.mapAttributes, mapAttributesIn_mapAttributesIn ns]

/-- Two changes of the attribute lists are one. -/
theorem mapAttributes_mapAttributes (e : Element) :
    (e.mapAttributes f).mapAttributes g = e.mapAttributes fun as => g (f as) := by
  simp only [Element.mapAttributes, mapAttributesIn_mapAttributesIn]

theorem elementsOf_mapAttributesIn :
    ∀ ns : List Node, Node.elementsOf (Node.mapAttributesIn f ns) =
      (Node.elementsOf ns).map (Element.mapAttributes f)
  | [] => rfl
  | .element tag attributes children :: ns => by
    simp only [Node.mapAttributesIn, Node.mapAttributes, Node.elementsOf, Node.elements,
      elementsOf_mapAttributesIn children, elementsOf_mapAttributesIn ns, List.cons_append,
      List.map_cons, List.map_append, Element.mapAttributes]
  | .text s :: ns => by
    simp only [Node.mapAttributesIn, Node.mapAttributes, Node.elementsOf, Node.elements,
      elementsOf_mapAttributesIn ns, List.nil_append]
  | .comment body :: ns => by
    simp only [Node.mapAttributesIn, Node.mapAttributes, Node.elementsOf, Node.elements,
      elementsOf_mapAttributesIn ns, List.nil_append]

/-- The elements stay where they are. -/
theorem elements_mapAttributes (e : Element) :
    (e.mapAttributes f).elements = e.elements.map (Element.mapAttributes f) :=
  congrArg (e.mapAttributes f :: ·) (elementsOf_mapAttributesIn f e.children)

end

/-! ## The first attribute of each name -/

/-- The names that are left are those that there are, each at its first place. -/
theorem map_name_firsts (as : List Attribute) :
    (firsts as).map Attribute.name = (as.map Attribute.name).eraseDups := by
  induction as using List.reverseRecOn with
  | nil => rfl
  | append_singleton as a ih =>
    have hhas : hasAttribute a.name (firsts as) = decide (a.name ∈ as.map Attribute.name) := by
      rw [Bool.eq_iff_iff, decide_eq_true_eq, ← List.mem_eraseDups, ← ih]
      simp [hasAttribute]
    rw [firsts_append_singleton, addAttribute, hhas, List.map_append, List.eraseDups_append, ← ih]
    by_cases hm : a.name ∈ as.map Attribute.name
    · have hold : [a.name].removeAll (as.map Attribute.name) = [] :=
        List.filter_cons_of_neg (by simpa using hm)
      simp [hold, hm]
    · have hnew : [a.name].removeAll (as.map Attribute.name) = [a.name] :=
        List.filter_cons_of_pos (by simpa using hm)
      simp [hnew, hm, List.eraseDups_cons]

/-- Each attribute that is left is the first of its name. -/
theorem find?_of_mem_firsts {as : List Attribute} {a : Attribute} (h : a ∈ firsts as) :
    as.find? (·.name == a.name) = some a := by
  induction as using List.reverseRecOn generalizing a with
  | nil => cases h
  | append_singleton as b ih =>
    rw [firsts_append_singleton, addAttribute] at h
    rw [List.find?_append]
    split at h
    · rw [ih h, Option.some_or]
    · rename_i hnew
      rcases List.mem_append.1 h with h | h
      · rw [ih h, Option.some_or]
      · obtain rfl := List.mem_singleton.1 h
        have hnone : as.find? (·.name == a.name) = none := by
          have hout := hasAttribute_eq_false.1 (Bool.eq_false_iff.2 hnew)
          rw [map_name_firsts, List.mem_eraseDups] at hout
          rw [List.find?_eq_none]
          rintro b hb hname
          exact hout (List.mem_map.2 ⟨b, hb, by simpa using hname⟩)
        simp [hnone]

/-- Attributes can be selected by name before or after the first ones are. -/
theorem firsts_filter (p : List Char → Bool) (as : List Attribute) :
    firsts (as.filter (p ·.name)) = (firsts as).filter (p ·.name) := by
  induction as using List.reverseRecOn with
  | nil => rfl
  | append_singleton as a ih =>
    rw [List.filter_append, firsts_append_singleton, addAttribute]
    by_cases hp : p a.name = true
    · have hkeep : [a].filter (p ·.name) = [a] := List.filter_cons_of_pos hp
      have hhas : hasAttribute a.name ((firsts as).filter (p ·.name)) =
          hasAttribute a.name (firsts as) := by
        rw [Bool.eq_iff_iff]
        simp only [hasAttribute, List.any_eq_true, List.mem_filter, beq_iff_eq]
        constructor
        · rintro ⟨b, ⟨hb, -⟩, hname⟩
          exact ⟨b, hb, hname⟩
        · rintro ⟨b, hb, hname⟩
          exact ⟨b, ⟨hb, by rw [hname, hp]⟩, hname⟩
      rw [hkeep, firsts_append_singleton, addAttribute, ih, hhas]
      split
      · rfl
      · rw [List.filter_append, hkeep]
    · have hdrop : [a].filter (p ·.name) = [] := List.filter_cons_of_neg hp
      rw [hdrop, List.append_nil, ih]
      split
      · rfl
      · rw [List.filter_append, hdrop, List.append_nil]

end SvgComponent.Markup

namespace SvgComponent.Jsx

open Text Markup

/-! ## Names -/

/-- The characters that join the words of a name in markup. -/
def isJoint (c : Char) : Bool := c == '-' || c == ':'

/-- Every name in the vocabulary is joined of words, and no spelling is. -/
theorem spellings_joints : ∀ s ∈ spellings, s.1.toList.any isJoint = true ∧
    s.2.toList.any isJoint = false ∧ s.2.toList ≠ "class".toList ∧ s.2.toList ≠ idName := by
  decide +kernel

/-- The names that JSX spells as they are: neither `class` nor in the vocabulary. -/
theorem jsxName_eq_self_iff {name : List Char} :
    jsxName name = name ↔ name ≠ "class".toList ∧ ∀ s ∈ spellings, name ≠ s.1.toList := by
  constructor
  · intro h
    rw [jsxName] at h
    split at h
    · rename_i hclass
      exact absurd (h.trans hclass) (by decide)
    · rename_i hclass
      refine ⟨hclass, ?_⟩
      rintro s hs rfl
      split at h
      · rename_i t jsx hfind
        -- the spelling would be joined as the name is
        have hjoined := (spellings_joints s hs).1
        rw [← h, (spellings_joints _ (List.mem_of_find?_eq_some hfind)).2.1] at hjoined
        cases hjoined
      · rename_i hfind
        simpa using List.find?_eq_none.1 hfind s hs
  · rintro ⟨hclass, hkeys⟩
    have hfind : spellings.find? (·.1.toList == name) = none := by
      rw [List.find?_eq_none]
      intro s hs heq
      exact hkeys s hs (beq_iff_eq.1 heq).symm
    rw [jsxName, if_neg hclass, hfind]

theorem jsxName_of_unjoined {name : List Char} (hclass : name ≠ "class".toList)
    (h : name.any isJoint = false) : jsxName name = name := by
  refine jsxName_eq_self_iff.2 ⟨hclass, ?_⟩
  rintro s hs rfl
  rw [(spellings_joints s hs).1] at h
  cases h

/-- **A JSX name is spelled in JSX as it is.** -/
theorem jsxName_jsxName (name : List Char) : jsxName (jsxName name) = jsxName name := by
  by_cases h : jsxName name = name
  · rw [h, h]
  · have hclass : jsxName "className".toList = "className".toList :=
      jsxName_of_unjoined (by decide) (by decide)
    have htable : ∀ s ∈ spellings, jsxName s.2.toList = s.2.toList := fun s hs =>
      jsxName_of_unjoined (spellings_joints s hs).2.2.1 (spellings_joints s hs).2.1
    have hfixed : (jsxName name == name || jsxName (jsxName name) == jsxName name) = true :=
      jsxName_rec (p := fun n => n == name || jsxName n == n) (by rw [hclass]; simp)
        (fun s hs => by simp [htable s hs]) (by simp)
    simpa [h] using hfixed

/-- Only the name of the identifier is spelled so. -/
theorem jsxName_eq_idName_iff {name : List Char} : jsxName name = idName ↔ name = idName := by
  constructor
  · intro h
    rw [jsxName] at h
    split at h
    · exact absurd h (by decide)
    split at h
    · rename_i hfind
      exact absurd h (spellings_joints _ (List.mem_of_find?_eq_some hfind)).2.2.2
    · exact h
  · rintro rfl
    exact jsxName_of_unjoined (by decide) (by decide)

/-! ## One attribute list -/

/-- `after` are the attributes `before` under their JSX names, without the identifier if asked. -/
structure Spelled (withoutIds : Bool) (before after : List Attribute) : Prop where
  /-- The JSX names, each once and in the order in which they first occur. -/
  names : after.map Attribute.name =
    (before.map (jsxName ·.name)).eraseDups.filter fun name => !(withoutIds && name == idName)
  /-- Each has the value of the first attribute with that JSX name. -/
  values : ∀ a ∈ after, ∃ b, before.find? (jsxName ·.name == a.name) = some b ∧ b.value = a.value

/-- What adapting does to the attributes of an element. -/
def adaptAttributes (withoutIds : Bool) (attributes : List Attribute) : List Attribute :=
  if withoutIds then dropId (renameAttributes attributes) else renameAttributes attributes

theorem adapt_eq_mapAttributes (root : Element) (withoutIds : Bool) :
    adapt root withoutIds = root.mapAttributes (adaptAttributes withoutIds) := by
  rw [adapt_eq]
  cases withoutIds with
  | false => rfl
  | true => exact mapAttributes_mapAttributes renameAttributes dropId root

theorem mem_adaptAttributes {withoutIds : Bool} {a : Attribute} {as : List Attribute}
    (h : a ∈ adaptAttributes withoutIds as) : a ∈ renameAttributes as := by
  rw [adaptAttributes] at h
  split at h
  · exact List.mem_of_mem_filter h
  · exact h

theorem map_name_adaptAttributes (withoutIds : Bool) (as : List Attribute) :
    (adaptAttributes withoutIds as).map Attribute.name =
      ((renameAttributes as).map Attribute.name).filter
        fun name => !(withoutIds && name == idName) := by
  cases withoutIds with
  | false => simp [adaptAttributes]
  | true =>
    rw [List.filter_map]
    rfl

theorem map_name_renameAttributes (as : List Attribute) :
    (renameAttributes as).map Attribute.name = (as.map (jsxName ·.name)).eraseDups := by
  rw [renameAttributes_eq_firsts, map_name_firsts, List.map_map]
  rfl

/-- **What becomes of the attributes of an element.** -/
theorem spelled_adaptAttributes (withoutIds : Bool) (as : List Attribute) :
    Spelled withoutIds as (adaptAttributes withoutIds as) where
  names := by rw [map_name_adaptAttributes, map_name_renameAttributes]
  values := by
    intro a ha
    have hm := mem_adaptAttributes ha
    rw [renameAttributes_eq_firsts] at hm
    have hfind := find?_of_mem_firsts hm
    rw [List.find?_map] at hfind
    obtain ⟨b, hb, rfl⟩ := Option.map_eq_some_iff.1 hfind
    exact ⟨b, hb, rfl⟩

/-- The names that are left are JSX names. -/
theorem jsxName_of_mem_adaptAttributes {withoutIds : Bool} {a : Attribute} {as : List Attribute}
    (h : a ∈ adaptAttributes withoutIds as) : jsxName a.name = a.name := by
  have hname : a.name ∈ (renameAttributes as).map Attribute.name :=
    List.mem_map_of_mem (mem_adaptAttributes h)
  rw [map_name_renameAttributes, List.mem_eraseDups] at hname
  obtain ⟨b, -, hb⟩ := List.mem_map.1 hname
  rw [← hb, jsxName_jsxName]

/-- Attributes that have different JSX names already are not renamed. -/
theorem renameAttributes_of_spelled {as : List Attribute} (hnames : ∀ a ∈ as, jsxName a.name = a.name)
    (hdistinct : distinctNames as = true) : renameAttributes as = as := by
  have hsame : (as.map fun a => (⟨jsxName a.name, a.value⟩ : Attribute)) = as :=
    (List.map_congr_left fun a ha => by rw [hnames a ha]; rfl).trans (List.map_id as)
  rw [renameAttributes_eq_firsts, hsame, firsts_of_distinct hdistinct]

theorem distinctNames_adaptAttributes (withoutIds : Bool) (as : List Attribute) :
    distinctNames (adaptAttributes withoutIds as) = true := by
  have hrenamed : ((renameAttributes as).map Attribute.name).Nodup := by
    have hfirsts := distinctNames_firsts (as.map fun a => ⟨jsxName a.name, a.value⟩)
    rwa [← renameAttributes_eq_firsts, distinctNames, decide_eq_true_eq] at hfirsts
  rw [distinctNames, decide_eq_true_eq, map_name_adaptAttributes]
  exact hrenamed.filter _

theorem adaptAttributes_adaptAttributes (withoutIds : Bool) (as : List Attribute) :
    adaptAttributes withoutIds (adaptAttributes withoutIds as) = adaptAttributes withoutIds as := by
  have hrename : renameAttributes (adaptAttributes withoutIds as) = adaptAttributes withoutIds as :=
    renameAttributes_of_spelled (fun a ha => jsxName_of_mem_adaptAttributes ha)
      (distinctNames_adaptAttributes withoutIds as)
  rw [adaptAttributes, hrename]
  split
  · rename_i hw
    rw [adaptAttributes, if_pos hw, dropId, dropId, List.filter_filter]
    simp only [Bool.and_self]
  · rfl

/-! ## The whole tree -/

/-- **An adapted tree** is the tree with other attribute lists, and each list is the one that the
vocabulary gives: identifiers are dropped if and only if that is asked for and the optimizer has not
dealt with them. No name is left that JSX spells otherwise, and adapting again changes nothing. -/
theorem adapt_spelled (root : Element) (o : Settings.Options) (optimized : Bool) :
    root.node.SameBut (Spelled (o.removeIds && !optimized))
        (adapt root (o.removeIds && !optimized)).node ∧
      (∀ e ∈ (adapt root (o.removeIds && !optimized)).elements, ∀ a ∈ e.attributes,
        a.name ≠ "class".toList ∧ ∀ s ∈ spellings, a.name ≠ s.1.toList) ∧
      adapt (adapt root (o.removeIds && !optimized)) (o.removeIds && !optimized) =
        adapt root (o.removeIds && !optimized) := by
  generalize (o.removeIds && !optimized) = withoutIds
  simp only [adapt_eq_mapAttributes]
  refine ⟨sameBut_mapAttributes _ (spelled_adaptAttributes withoutIds) root, ?_, ?_⟩
  · intro e he a ha
    rw [elements_mapAttributes] at he
    obtain ⟨e, -, rfl⟩ := List.mem_map.1 he
    exact jsxName_eq_self_iff.1 (jsxName_of_mem_adaptAttributes ha)
  · rw [mapAttributes_mapAttributes]
    simp only [adaptAttributes_adaptAttributes]

/-! ## Identifiers -/

theorem dropId_renameAttributes (as : List Attribute) :
    dropId (renameAttributes as) = renameAttributes (dropId as) := by
  have hselect : (as.map fun a => (⟨jsxName a.name, a.value⟩ : Attribute)).filter (·.name != idName) =
      (as.filter (·.name != idName)).map fun a => ⟨jsxName a.name, a.value⟩ := by
    rw [List.filter_map]
    congr 2
    funext a
    rw [Function.comp_apply, Bool.eq_iff_iff, bne_iff_ne, bne_iff_ne, Ne, jsxName_eq_idName_iff]
  rw [dropId, dropId, renameAttributes_eq_firsts, renameAttributes_eq_firsts, ← hselect,
    firsts_filter (· != idName)]

theorem hasAttribute_renameAttributes (as : List Attribute) :
    hasAttribute idName (renameAttributes as) = hasAttribute idName as := by
  have hmem : ∀ bs : List Attribute,
      hasAttribute idName bs = true ↔ idName ∈ bs.map Attribute.name := by simp [hasAttribute]
  rw [Bool.eq_iff_iff, hmem, hmem, map_name_renameAttributes, List.mem_eraseDups]
  simp only [List.mem_map, jsxName_eq_idName_iff]

theorem hasAttribute_dropId (as : List Attribute) : hasAttribute idName (dropId as) = false := by
  simp [hasAttribute, dropId]

theorem countIds_mapAttributes (f : List Attribute → List Attribute) (root : Element) :
    countIds (root.mapAttributes f).elements =
      root.elements.countP fun e => hasAttribute idName (f e.attributes) := by
  rw [countIds, elements_mapAttributes, List.countP_map]
  rfl

/-- **Identifiers can be dropped before or after the renaming.** The tree is the same and so is the
number of identifiers dropped, which is the number of elements that have one, with whatever value; and
none is dropped a second time. -/
theorem stripIds_rename (root : Element) :
    (stripIds (rename root)).1 = rename (stripIds root).1 ∧
      (stripIds (rename root)).2 = (stripIds root).2 ∧
      (stripIds root).2 =
        root.node.elements.countP (fun e => decide (∃ a ∈ e.attributes, a.name = "id".toList)) ∧
      (stripIds (stripIds root).1).2 = 0 := by
  simp only [stripIds_eq, rename_eq]
  refine ⟨?_, ?_, ?_, ?_⟩
  · rw [mapAttributes_mapAttributes, mapAttributes_mapAttributes]
    simp only [dropId_renameAttributes]
  · rw [countIds_mapAttributes, countIds]
    simp only [hasAttribute_renameAttributes]
  · unfold countIds
    refine List.countP_congr fun e _ => ?_
    simp [hasAttribute, idName]
  · rw [countIds_mapAttributes]
    simp [hasAttribute_dropId]

end SvgComponent.Jsx
